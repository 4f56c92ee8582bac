import Engram.Chain.HeaderHistory

/-!
The latch of the last recovery proof. It is set by an accepted proof and cleared
by the pre-blocker of the block that leaves RECOVERING, before the messages of
that block run; the exit gate reads it against the tip of the tracked headers.
-/

set_option autoImplicit false
set_option relaxedAutoImplicit false

namespace Engram.Chain

open Engram.Types Engram.Keeper Engram.Node Engram.Library Engram.Fsm

def leavesRecovering (m : Move Chain Block) : Bool :=
  m.source.state == .recovering && m.target.state != .recovering

def sinceLeft : List (Move Chain Block) → List (Move Chain Block)
  | [] => []
  | m :: past => if leavesRecovering m then [m] else m :: sinceLeft past

/-- The proofs accepted since RECOVERING was last left, or since the locked
interval that ends the history began. -/
def countedProofs (external : External) (p : Params) (past : List (Move Chain Block)) :
    List Checkpoint :=
  checkpointsOf external p (sinceLeft (lockedInterval past))

/-- The real-proof disjunct is true exactly when a proof counts and its unproven
tail is short, and its unsigned subtraction does not wrap. -/
def ProofCountsExactly (external : External) (p : Params) (past : List (Move Chain Block))
    (now : Chain) : Prop :=
  (realProofValid p now.store = true ↔
    ∃ a, (countedProofs external p past).getLast? = some a ∧
      now.height - a.height ≤ p.maxUnprovenTailBlocks.toNat) ∧
  (now.store.realProofSubmittedHeight > 0 → ∀ tip header,
    now.store.latestTrackedHeader = some (tip, header) →
      now.store.realProofSubmittedHeight ≤ tip)

private theorem deliverAll_latch (external : External) (st : Store) (msgs : List Msg) :
    (deliverAll external st msgs).realProofSubmittedHeight.toNat =
      ((checkpoints external st msgs).getLast?.map Checkpoint.height).getD
        st.realProofSubmittedHeight.toNat := by
  induction msgs generalizing st with
  | nil => rfl
  | cons msg msgs ih =>
      change (deliverAll external (deliver external st msg) msgs).realProofSubmittedHeight.toNat = _
      rw [ih, checkpoints, List.getLast?_append]
      obtain ⟨none, _, _, latch⟩ | ⟨kv, _, inputs, _, set, _, _, latch⟩ :=
        checkpointOf_cases external st msg
      · rw [none, latch, Option.toList_none, List.getLast?_nil, Option.or_none]
      · rw [set, latch, Option.toList_some, List.getLast?_singleton]
        cases (checkpoints external (deliver external st msg) msgs).getLast? <;> rfl

section Latch

variable {external : External} {p : Params} {past : List (Move Chain Block)} {now c c' : Chain}
  {b : Block}

private theorem afterPreBlock_latch (decided : decideBlock external p c b = some c') :
    (afterPreBlock external p c b).realProofSubmittedHeight =
      if leavesRecovering ⟨c, b, c'⟩ then 0 else c.store.realProofSubmittedHeight := by
  obtain ⟨ext, _, st, carries, kept, executed, _⟩ := decideBlock_cases decided
  have state : c'.state = ext.fsmState := (decided_committed decided carries).currState
  have left : leavesRecovering ⟨c, b, c'⟩ = true ↔
      st.currState = .recovering ∧ ext.fsmState ≠ .recovering := by
    rw [leavesRecovering, Bool.and_eq_true, beq_iff_eq, bne_iff_ne, state, kept.currState]
    rfl
  rw [executed, ← kept.recovery.2.2]
  simp only [commitFSMTransition, left]

private theorem latch_eq_counted (run : ChainRun external p past now)
    (locked : withdrawLocked now.state = true) :
    now.store.realProofSubmittedHeight.toNat =
      ((countedProofs external p past).getLast?.map Checkpoint.height).getD 0 := by
  induction run with
  | initial => rfl
  | @extend past c c' b before decided ih =>
      have old : c.store.realProofSubmittedHeight.toNat =
          ((countedProofs external p past).getLast?.map Checkpoint.height).getD 0 := by
        cases lockedBefore : withdrawLocked c.state with
        | true => exact ih lockedBefore
        | false =>
            rw [((latchInvariant_of_run before).unlocked lockedBefore).2, countedProofs,
              (lockedInterval_unlocked before lockedBefore).1]
            rfl
      rw [decided_store decided, deliverAll_latch, afterPreBlock_latch decided, countedProofs,
        lockedInterval_cons locked, sinceLeft]
      split
      · rw [checkpointsOf, checkpointsOf, List.nil_append]
        rfl
      · rw [checkpointsOf, List.getLast?_append, old]
        change _ = ((Option.or _ (countedProofs external p past).getLast?).map _).getD 0
        cases (checkpoints external (afterPreBlock external p c b) b.msgs).getLast? <;> rfl

private theorem mem_interval_of_counted {a : Checkpoint}
    (listed : a ∈ countedProofs external p past) : a ∈ intervalCheckpoints external p past := by
  unfold countedProofs at listed
  unfold intervalCheckpoints
  generalize lockedInterval past = interval at listed ⊢
  induction interval with
  | nil => exact listed
  | cons m rest ih =>
      rw [sinceLeft] at listed
      rw [checkpointsOf]
      split at listed
      · rw [checkpointsOf, checkpointsOf, List.nil_append] at listed
        exact List.mem_append_right _ listed
      · rw [checkpointsOf] at listed
        rcases List.mem_append.mp listed with older | newer
        · exact List.mem_append_left _ (ih older)
        · exact List.mem_append_right _ newer

private theorem counted_eq_last (run : ChainRun external p past now)
    (locked : withdrawLocked now.state = true) {a : Checkpoint}
    (final : (countedProofs external p past).getLast? = some a) :
    1 ≤ a.height ∧ lastCheckpoint external p past now = a.height ∧
      now.store.realProofSubmittedHeight.toNat = a.height := by
  have latch := latch_eq_counted run locked
  rw [final] at latch
  change _ = a.height at latch
  have listed := mem_interval_of_counted (List.mem_of_getLast? final)
  obtain ⟨kv, member, same, _⟩ := ((historyInvariant_of_run run).tracked locked).rooted a listed
  have positive : 1 ≤ a.height := by
    rw [← same]
    exact (firstLocked_pos run).trans (firstLocked_le_recorded run member)
  refine ⟨positive, ?_, latch⟩
  rcases (intervalTracked_of_run run locked).latch with zero | last
  · rw [zero] at latch
    change 0 = a.height at latch
    omega
  · rw [← last, latch]

private theorem latch_eq_zero (run : ChainRun external p past now)
    (locked : withdrawLocked now.state = true) (none : countedProofs external p past = []) :
    now.store.realProofSubmittedHeight = 0 := by
  have latch := latch_eq_counted run locked
  rw [none] at latch
  exact UInt64.toNat_inj.mp latch

private theorem latestTrackedHeader_spec {st : Store} {tip : UInt64 × RecoveryHeader}
    (found : st.latestTrackedHeader = some tip) :
    tip ∈ st.headerHistory.entries ∧ ∀ kv ∈ st.headerHistory.entries, kv.1 ≤ tip.1 := by
  have scan : ∀ (rest : List (UInt64 × RecoveryHeader)) (best : UInt64 × RecoveryHeader),
      let found := rest.foldl (fun best kv => if kv.1 > best.1 then kv else best) best
      found ∈ best :: rest ∧ ∀ kv ∈ best :: rest, kv.1 ≤ found.1 := by
    intro rest
    induction rest with
    | nil => simp
    | cons kv rest ih =>
        intro best
        rw [List.foldl_cons]
        by_cases higher : kv.1 > best.1
        · rw [if_pos higher]
          obtain ⟨member, greatest⟩ := ih kv
          refine ⟨List.mem_cons_of_mem _ member, ?_⟩
          intro e listed
          rcases List.mem_cons.mp listed with rfl | later
          · exact higher.le.trans (greatest kv List.mem_cons_self)
          · exact greatest e later
        · rw [if_neg higher]
          obtain ⟨member, greatest⟩ := ih best
          refine ⟨?_, ?_⟩
          · rcases List.mem_cons.mp member with same | later
            · rw [same]
              exact List.mem_cons_self
            · exact List.mem_cons_of_mem _ (List.mem_cons_of_mem _ later)
          · intro e listed
            rcases List.mem_cons.mp listed with rfl | later
            · exact greatest e List.mem_cons_self
            · rcases List.mem_cons.mp later with rfl | last
              · exact (not_lt.mp higher).trans (greatest best List.mem_cons_self)
              · exact greatest e (List.mem_cons_of_mem _ last)
  unfold Store.latestTrackedHeader at found
  cases entries : st.headerHistory.entries with
  | nil => simp [entries] at found
  | cons first rest =>
      rw [entries] at found
      obtain rfl := Option.some.inj found
      exact scan rest first

private theorem latestTrackedHeader_of_run (run : ChainRun external p past now)
    (locked : withdrawLocked now.state = true) :
    (now.store.latestTrackedHeader = none ↔
        lastCheckpoint external p past now = now.height) ∧
      ∀ tip, now.store.latestTrackedHeader = some tip → tip.1.toNat = now.height := by
  have tracked := intervalTracked_of_run run locked
  have keys := tracked.keys
  have within := tracked.within.2
  refine ⟨?_, ?_⟩
  · have empty : now.store.latestTrackedHeader = none ↔
        now.store.headerHistory.entries = [] := by
      unfold Store.latestTrackedHeader
      split <;> simp_all
    rw [empty, ← List.map_eq_nil_iff (f := fun kv => kv.1.toNat), keys, List.range'_eq_nil_iff]
    omega
  · intro tip found
    obtain ⟨member, greatest⟩ := latestTrackedHeader_spec found
    have listed : tip.1.toNat ∈ now.store.headerHistory.entries.map (fun kv => kv.1.toNat) :=
      List.mem_map_of_mem (f := fun kv : UInt64 × RecoveryHeader => kv.1.toNat) member
    rw [keys, List.mem_range'_1] at listed
    have last : now.height ∈ now.store.headerHistory.entries.map (fun kv => kv.1.toNat) := by
      rw [keys, List.mem_range'_1]
      omega
    obtain ⟨kv, member', same⟩ := List.mem_map.mp last
    have reached := UInt64.le_iff_toNat_le.mp (greatest kv member')
    omega

/-- In every reachable RECOVERING state the real-proof disjunct is exact unless
the last counted proof covers the tip itself. -/
theorem proof_counts_exactly_iff (run : ChainRun external p past now)
    (recovering : now.state = .recovering) :
    ProofCountsExactly external p past now ↔
      ∀ a, (countedProofs external p past).getLast? = some a → a.height ≠ now.height := by
  have locked : withdrawLocked now.state = true := by rw [recovering]; rfl
  obtain ⟨untracked, tipHeight⟩ := latestTrackedHeader_of_run run locked
  cases final : (countedProofs external p past).getLast? with
  | none =>
      have empty := latch_eq_zero run locked (List.getLast?_eq_none_iff.mp final)
      simp [ProofCountsExactly, realProofValid, empty, final]
  | some a =>
      obtain ⟨positive, last, latch⟩ := counted_eq_last run locked final
      have occupied : now.store.realProofSubmittedHeight > 0 := by
        rw [gt_iff_lt, UInt64.lt_iff_toNat_lt, latch]
        exact positive
      have within := (intervalTracked_of_run run locked).within.2
      rw [last] at untracked within
      simp only [ProofCountsExactly, realProofValid, occupied, if_true, final, Option.some.injEq]
      cases tracked : now.store.latestTrackedHeader with
      | none =>
          have covered : a.height = now.height := untracked.mp tracked
          simp [covered]
      | some tip =>
          have height := tipHeight tip tracked
          have apart : a.height ≠ now.height := by
            intro covered
            rw [untracked.mpr covered] at tracked
            cases tracked
          have ordered : now.store.realProofSubmittedHeight ≤ tip.1 := by
            rw [UInt64.le_iff_toNat_le, latch, height]
            exact within
          have difference : (tip.1 - now.store.realProofSubmittedHeight).toNat =
              now.height - a.height := by
            rw [UInt64.toNat_sub_of_le _ _ ordered, latch, height]
          constructor
          · rintro _ a' rfl
            exact apart
          · intro _
            refine ⟨?_, ?_⟩
            · simp [UInt64.le_iff_toNat_le, difference]
            · rintro _ tip' header same
              obtain rfl := Option.some.inj same
              exact ordered

end Latch

/-- A proof of height 4, committed in block 5, counts there. -/
theorem proof_counts_exactly_provenOutage :
    ∃ past now, ChainRun outageExternal defaultParams past now ∧ now.state = .recovering ∧
      realProofValid defaultParams now.store = true ∧
      ProofCountsExactly outageExternal defaultParams past now := by
  obtain ⟨past, now, run, passed⟩ := exists_run_of_replayPasses
    (decideBlock outageExternal defaultParams) genesisChain (provenOutage.take 5)
    (fun past now => now.state == .recovering && realProofValid defaultParams now.store &&
      decide (now.height = 5) &&
      (countedProofs outageExternal defaultParams past).map Checkpoint.height == [4])
    (by decide +kernel)
  simp only [Bool.and_eq_true, beq_iff_eq, decide_eq_true_eq] at passed
  obtain ⟨⟨⟨state, valid⟩, height⟩, counted⟩ := passed
  refine ⟨past, now, run, state, valid, (proof_counts_exactly_iff run state).mpr ?_⟩
  intro a final
  have last := congrArg List.getLast? counted
  rw [List.getLast?_map, final] at last
  have four : a.height = 4 := Option.some.inj last
  omega

section TipProof

/-- A proof from the root of block 2 to the root of block 5, the block that
delivers it. -/
def tipProof : SubmitRecoveryProof :=
  ⟨[], fillBytes 2 ++ fillBytes 5 ++ fillBytes 3, 0⟩

def tipExternal : External :=
  .ofProposals [outageProposal .recovering true, outageProposal .anchored true,
    outageProposal .sovereign false] (fun _ inputs => inputs == tipProof.publicInputs)

def tipOutage : List Block :=
  [liveBlock (outageProposal .anchored true) 1 [],
    degradingBlock 2,
    liveBlock (outageProposal .recovering true) 3 [],
    liveBlock (outageProposal .recovering true) 4 [],
    liveBlock (outageProposal .recovering true) 5 [.submitRecoveryProof tipProof]]

/-- A proof that covers the tip leaves no header to read the tip from, so it does
not count although nothing is left unproven. -/
theorem tip_proof_does_not_count :
    ∃ past now, ChainRun tipExternal defaultParams past now ∧ now.state = .recovering ∧
      ¬ ProofCountsExactly tipExternal defaultParams past now := by
  obtain ⟨past, now, run, passed⟩ := exists_run_of_replayPasses
    (decideBlock tipExternal defaultParams) genesisChain tipOutage
    (fun past now => now.state == .recovering && !realProofValid defaultParams now.store &&
      decide (now.height = 5) &&
      (countedProofs tipExternal defaultParams past).map Checkpoint.height == [5])
    (by decide +kernel)
  simp only [Bool.and_eq_true, beq_iff_eq, decide_eq_true_eq, Bool.not_eq_true'] at passed
  obtain ⟨⟨⟨state, invalid⟩, height⟩, counted⟩ := passed
  refine ⟨past, now, run, state, fun counts => ?_⟩
  cases final : (countedProofs tipExternal defaultParams past).getLast? with
  | none => simp [List.getLast?_eq_none_iff.mp final] at counted
  | some a =>
      have last := congrArg List.getLast? counted
      rw [List.getLast?_map, final] at last
      have five : a.height = 5 := Option.some.inj last
      have valid := counts.1.mpr ⟨a, final, by omega⟩
      rw [invalid] at valid
      cases valid

end TipProof

end Engram.Chain
