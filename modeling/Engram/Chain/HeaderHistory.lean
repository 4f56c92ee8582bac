import Engram.Chain.Reanchoring
import Engram.Fsm.Recovery
import Mathlib.Data.List.Nodup

/-!
The tracked headers of a locked interval as a function of the run. The
pre-blocker appends one header per block, an accepted recovery proof removes a
prefix, and the end of the interval removes everything; what is left is exactly
the interval above its last accepted checkpoint.
-/

set_option autoImplicit false
set_option relaxedAutoImplicit false

namespace Engram.Chain

open Engram.Types Engram.Keeper Engram.Node Engram.Library Engram.Fsm

structure Checkpoint where
  height : ℕ
  inputs : Bytes

/-- The checkpoint a message sets, when it is a recovery proof that is accepted. -/
def checkpointOf (external : External) (st : Store) : Msg → Option Checkpoint
  | .submitRecoveryProof msg =>
      match submitRecoveryProof external.verifyZKProof st msg with
      | .ok st' => some ⟨st'.realProofSubmittedHeight.toNat, msg.publicInputs⟩
      | .error _ => none
  | _ => none

def checkpoints (external : External) : Store → List Msg → List Checkpoint
  | _, [] => []
  | st, msg :: rest =>
      (checkpointOf external st msg).toList ++ checkpoints external (deliver external st msg) rest

/-- The checkpoints set by the blocks of a history, oldest first. -/
def checkpointsOf (external : External) (p : Params) : List (Move Chain Block) → List Checkpoint
  | [] => []
  | m :: past => checkpointsOf external p past ++
      checkpoints external (afterPreBlock external p m.source m.input) m.input.msgs

def blockRoot (m : Move Chain Block) : Bytes := reduceToField m.input.appHash

def trackedHeader (m : Move Chain Block) : UInt64 × RecoveryHeader :=
  (m.source.nextHeight, ⟨m.target.state, true, blockRoot m⟩)

def firstLocked (past : List (Move Chain Block)) (now : Chain) : ℕ :=
  now.height + 1 - (lockedInterval past).length

def intervalCheckpoints (external : External) (p : Params) (past : List (Move Chain Block)) :
    List Checkpoint :=
  checkpointsOf external p (lockedInterval past)

/-- The height of the last proof accepted in the current interval, and the height
before the interval when there is none. -/
def lastCheckpoint (external : External) (p : Params) (past : List (Move Chain Block))
    (now : Chain) : ℕ :=
  match (intervalCheckpoints external p past).getLast? with
  | some accepted => accepted.height
  | none => firstLocked past now - 1

section Messages

variable {external : External} {st : Store} {msg : Msg}

/-- What a message does to the recovery bookkeeping: nothing, or it moves the
checkpoint to a tracked header whose root it names. -/
theorem checkpointOf_cases (external : External) (st : Store) (msg : Msg) :
    (checkpointOf external st msg = none ∧
      (deliver external st msg).headerHistory = st.headerHistory ∧
      (deliver external st msg).lastAnchoredRoot = st.lastAnchoredRoot ∧
      (deliver external st msg).realProofSubmittedHeight = st.realProofSubmittedHeight) ∨
    ∃ kv ∈ st.headerHistory.entries, ∃ inputs : Bytes,
      (inputs.drop 32).take 32 = kv.2.stateRoot ∧
      checkpointOf external st msg = some ⟨kv.1.toNat, inputs⟩ ∧
      (deliver external st msg).headerHistory.entries =
        st.headerHistory.entries.filter (fun e => !decide (e.1 ≤ kv.1)) ∧
      (deliver external st msg).lastAnchoredRoot = some kv.2.stateRoot ∧
      (deliver external st msg).realProofSubmittedHeight = kv.1 := by
  cases msg with
  | submitForcedTx tx =>
      left
      obtain same | ⟨_, _, same⟩ | ⟨_, _, same⟩ | ⟨_, _, isProof, _⟩ :=
        deliver_cases external st (.submitForcedTx tx) <;>
      first
        | cases isProof
        | exact ⟨rfl, by rw [same], by rw [same], by rw [same]⟩
  | injectFault faultInputs =>
      left
      obtain same | ⟨_, _, same⟩ | ⟨_, _, same⟩ | ⟨_, _, isProof, _⟩ :=
        deliver_cases external st (.injectFault faultInputs) <;>
      first
        | cases isProof
        | exact ⟨rfl, by rw [same], by rw [same], by rw [same]⟩
  | submitRecoveryProof proof =>
      cases handled : submitRecoveryProof external.verifyZKProof st proof with
      | error _ =>
          left
          simp [checkpointOf, deliver, handleMsg, handled]
      | ok st' =>
          right
          obtain ⟨_, _, _, height, found, audit, rfl⟩ := submitRecoveryProof_cases handled
          obtain ⟨kv, first, rfl⟩ := Option.map_eq_some_iff.mp found
          have root : kv.2.stateRoot = (proof.publicInputs.drop 32).take 32 := by
            simpa using List.find?_some first
          refine ⟨kv, List.mem_of_find?_eq_some first, proof.publicInputs, root.symm, ?_⟩
          simp [checkpointOf, deliver, handleMsg, handled, pruneHeaderHistoryUpTo_entries, root]

end Messages

def aboveAll (cs : List Checkpoint) (height : UInt64) : Bool :=
  cs.all (fun a => a.height < height.toNat)

private theorem aboveAll_append (cs ds : List Checkpoint) (height : UInt64) :
    aboveAll (cs ++ ds) height = (aboveAll cs height && aboveAll ds height) := by
  simp [aboveAll]

/-- The store tracks, of the headers recorded in this interval, those above its
checkpoints `cs`; `older` are the checkpoints of earlier intervals. -/
structure Tracks (recorded : List (UInt64 × RecoveryHeader)) (older cs : List Checkpoint)
    (st : Store) : Prop where
  nonempty : recorded ≠ []
  entries : st.headerHistory.entries = recorded.filter (fun kv => aboveAll (older ++ cs) kv.1)
  increasing : (older ++ cs).Pairwise (fun a b => a.height < b.height)
  rooted : ∀ a ∈ cs, ∃ kv ∈ recorded, kv.1.toNat = a.height ∧
    (a.inputs.drop 32).take 32 = kv.2.stateRoot
  unproven : cs = [] → recorded.head?.map (fun kv => kv.2.stateRoot) = st.lastAnchoredRoot
  proven : ∀ a, cs.getLast? = some a → ∃ kv ∈ recorded, kv.1.toNat = a.height ∧
    st.lastAnchoredRoot = some kv.2.stateRoot
  latch : st.realProofSubmittedHeight = 0 ∨
    ∃ a, cs.getLast? = some a ∧ st.realProofSubmittedHeight.toNat = a.height

section Tracking

variable {external : External} {recorded : List (UInt64 × RecoveryHeader)}
  {older cs : List Checkpoint} {st : Store}

theorem Tracks.deliver (tracks : Tracks recorded older cs st) (external : External)
    (msg : Msg) :
    Tracks recorded older (cs ++ (checkpointOf external st msg).toList)
      (deliver external st msg) := by
  obtain ⟨none, headers, root, latch⟩ | ⟨kv, member, inputs, named, set, headers, root, latch⟩ :=
    checkpointOf_cases external st msg
  · rw [none, Option.toList_none, List.append_nil]
    exact ⟨tracks.nonempty, by rw [headers, tracks.entries], tracks.increasing, tracks.rooted,
      by rw [root]; exact tracks.unproven, by rw [root]; exact tracks.proven,
      by rw [latch]; exact tracks.latch⟩
  · rw [set, Option.toList_some]
    rw [tracks.entries, List.mem_filter] at member
    obtain ⟨recordedMember, fresh⟩ := member
    refine ⟨tracks.nonempty, ?_, ?_, ?_, ?_, ?_, ?_⟩
    · rw [headers, tracks.entries, List.filter_filter]
      apply List.filter_congr
      intro e _
      have new : aboveAll [⟨kv.1.toNat, inputs⟩] e.1 = !decide (e.1 ≤ kv.1) := by
        simp only [aboveAll, List.all_cons, List.all_nil, Bool.and_true,
          UInt64.le_iff_toNat_le, ← decide_not, not_le]
      rw [← List.append_assoc, aboveAll_append _ [_], new, Bool.and_comm]
    · rw [← List.append_assoc, List.pairwise_append]
      refine ⟨tracks.increasing, List.pairwise_singleton _ _, ?_⟩
      intro a old b last
      rw [List.mem_singleton.mp last]
      exact of_decide_eq_true (List.all_eq_true.mp fresh a old)
    · intro a listed
      rcases List.mem_append.mp listed with old | new
      · exact tracks.rooted a old
      · rw [List.mem_singleton.mp new]
        exact ⟨kv, recordedMember, rfl, named⟩
    · intro empty
      simp at empty
    · intro a last
      rw [List.getLast?_concat] at last
      obtain rfl := Option.some.inj last
      exact ⟨kv, recordedMember, rfl, root⟩
    · right
      exact ⟨_, List.getLast?_concat, by rw [latch]⟩

private theorem Tracks.bookkeeping {st' : Store} (tracks : Tracks recorded older cs st)
    (kept : Bookkeeping st st') : Tracks recorded older cs st' := by
  obtain ⟨_, _, _, _, rfl⟩ := kept
  exact ⟨tracks.nonempty, tracks.entries, tracks.increasing, tracks.rooted, tracks.unproven,
    tracks.proven, tracks.latch⟩

theorem Tracks.deliverAll (tracks : Tracks recorded older cs st) (external : External)
    (msgs : List Msg) :
    Tracks recorded older (cs ++ checkpoints external st msgs)
      (deliverAll external st msgs) := by
  induction msgs generalizing st cs with
  | nil =>
      rw [checkpoints, List.append_nil]
      exact tracks
  | cons msg msgs ih =>
      have rest := ih (tracks.deliver external msg)
      rw [List.append_assoc] at rest
      exact rest

private theorem checkpoints_untracked (msgs : List Msg)
    (untracked : st.headerHistory.entries = []) : checkpoints external st msgs = [] := by
  induction msgs generalizing st with
  | nil => rfl
  | cons msg msgs ih =>
      obtain ⟨none, headers, _⟩ | ⟨kv, member, _⟩ := checkpointOf_cases external st msg
      · rw [checkpoints, none, ih (by rw [headers, untracked])]
        rfl
      · rw [untracked] at member
        cases member

section Commit

variable {p : Params} {height : UInt64} {appHash : Bytes} {ext : ExtendedProposal}

theorem Tracks.commit (tracks : Tracks recorded older cs st)
    (locked : withdrawLocked st.currState = true)
    (target : withdrawLocked ext.fsmState = true)
    (ahead : ∀ kv ∈ recorded, kv.1 < height) (later : ∀ a ∈ older, a.height < height.toNat) :
    Tracks (recorded ++ [(height, ⟨ext.fsmState, true, reduceToField appHash⟩)]) older cs
      (commitFSMTransition p height appHash st ext) := by
  have above : aboveAll (older ++ cs) height = true := by
    rw [aboveAll, List.all_eq_true]
    intro a listed
    rcases List.mem_append.mp listed with old | new
    · exact decide_eq_true (later a old)
    · obtain ⟨kv, member, same, _⟩ := tracks.rooted a new
      rw [← same]
      exact decide_eq_true (UInt64.lt_iff_toNat_lt.mp (ahead kv member))
  have root : (commitFSMTransition p height appHash st ext).lastAnchoredRoot =
      st.lastAnchoredRoot := by
    simp [commitFSMTransition, locked]
  have kept : ∀ a ∈ cs, ∃ kv ∈ recorded ++ [(height, ⟨ext.fsmState, true, reduceToField appHash⟩)],
      kv.1.toNat = a.height ∧ (a.inputs.drop 32).take 32 = kv.2.stateRoot := by
    intro a listed
    obtain ⟨kv, member, same⟩ := tracks.rooted a listed
    exact ⟨kv, List.mem_append_left _ member, same⟩
  refine ⟨by simp, ?_, tracks.increasing, kept, ?_, ?_, ?_⟩
  · have before : ∀ e ∈ st.headerHistory.entries, e.1 < height := by
      intro e member
      rw [tracks.entries] at member
      exact ahead e (List.mem_of_mem_filter member)
    simp only [commitFSMTransition, target, if_true]
    rw [OrderedMap.entries_set_of_above _ before, tracks.entries, List.filter_append]
    simp [above]
  · intro empty
    rw [root, ← tracks.unproven empty]
    cases recorded with
    | nil => exact absurd rfl tracks.nonempty
    | cons first rest => rfl
  · intro a last
    obtain ⟨kv, member, same⟩ := tracks.proven a last
    exact ⟨kv, List.mem_append_left _ member, by rw [root]; exact same⟩
  · have latch := tracks.latch
    simp only [commitFSMTransition]
    split
    · exact Or.inl rfl
    · exact latch

theorem Tracks.open (untracked : st.headerHistory.entries = [])
    (idle : st.realProofSubmittedHeight = 0) (unlocked : withdrawLocked st.currState = false)
    (target : withdrawLocked ext.fsmState = true)
    (increasing : older.Pairwise (fun a b => a.height < b.height))
    (later : ∀ a ∈ older, a.height < height.toNat) :
    Tracks [(height, ⟨ext.fsmState, true, reduceToField appHash⟩)] older []
      (commitFSMTransition p height appHash st ext) := by
  have above : aboveAll older height = true := by
    rw [aboveAll, List.all_eq_true]
    intro a listed
    exact decide_eq_true (later a listed)
  refine ⟨by simp, ?_, by rwa [List.append_nil], by simp, ?_, by simp, ?_⟩
  · simp only [commitFSMTransition, target, if_true]
    rw [OrderedMap.entries_set_of_above _ (by simp [untracked]), untracked]
    simp [above]
  · intro _
    simp [commitFSMTransition, target, unlocked]
  · left
    simp only [commitFSMTransition, idle, ite_self]

end Commit

end Tracking

/-- The headers recorded in the locked interval that ends the history, in height
order. -/
def recordedHeaders (past : List (Move Chain Block)) : List (UInt64 × RecoveryHeader) :=
  (lockedInterval past).reverse.map trackedHeader

def beforeInterval (past : List (Move Chain Block)) : List (Move Chain Block) :=
  past.dropWhile (fun m => withdrawLocked m.target.state)

private theorem checkpointsOf_append (external : External) (p : Params)
    (newer older : List (Move Chain Block)) :
    checkpointsOf external p (newer ++ older) =
      checkpointsOf external p older ++ checkpointsOf external p newer := by
  induction newer with
  | nil => rw [List.nil_append, checkpointsOf, List.append_nil]
  | cons m newer ih =>
      rw [List.cons_append, checkpointsOf, ih, checkpointsOf, List.append_assoc]

private theorem checkpointsOf_split (external : External) (p : Params)
    (past : List (Move Chain Block)) : checkpointsOf external p past =
      checkpointsOf external p (beforeInterval past) ++ intervalCheckpoints external p past := by
  rw [intervalCheckpoints, ← checkpointsOf_append, lockedInterval, beforeInterval,
    List.takeWhile_append_dropWhile]

theorem lockedInterval_unlocked {external : External} {p : Params}
    {past : List (Move Chain Block)} {now : Chain} (run : ChainRun external p past now)
    (unlocked : withdrawLocked now.state = false) :
    lockedInterval past = [] ∧ beforeInterval past = past := by
  cases run with
  | initial => exact ⟨rfl, rfl⟩
  | extend _ _ => simp [lockedInterval, beforeInterval, unlocked]

structure HistoryInvariant (external : External) (p : Params) (past : List (Move Chain Block))
    (now : Chain) : Prop where
  recorded : ∀ kv ∈ recordedHeaders past, kv.1.toNat ≤ now.height
  tracked : withdrawLocked now.state = true → Tracks (recordedHeaders past)
    (checkpointsOf external p (beforeInterval past)) (intervalCheckpoints external p past)
    now.store
  increasing : (checkpointsOf external p past).Pairwise (fun a b => a.height < b.height)
  bounded : ∀ a ∈ checkpointsOf external p past, a.height ≤ now.height
  rooted : ∀ a ∈ checkpointsOf external p past, ∃ m ∈ past, m.target.height = a.height ∧
    (a.inputs.drop 32).take 32 = blockRoot m

theorem decided_nextHeight {external : External} {p : Params} {c c' : Chain} {b : Block}
    (decided : decideBlock external p c b = some c') : c.nextHeight.toNat = c'.height := by
  obtain ⟨_, _, _, carries, _⟩ := decideBlock_cases decided
  rw [decideBlock_height decided, Chain.nextHeight]
  have below := carries.below
  exact Nat.mod_eq_of_lt (by omega)

private theorem chainRun_heights {external : External} {p : Params} {past : List (Move Chain Block)}
    {now : Chain} (run : ChainRun external p past now) :
    past.map (fun m => m.target.height) = (List.range' 1 now.height).reverse := by
  induction run with
  | initial => rfl
  | @extend past c c' b _ decided ih =>
      rw [List.map_cons, ih, decideBlock_height decided, List.range'_concat, List.reverse_append]
      simp [Nat.add_comm]

private theorem height_le_of_mem {external : External} {p : Params} {past : List (Move Chain Block)}
    {now : Chain} (run : ChainRun external p past now) {m : Move Chain Block} (member : m ∈ past) :
    m.target.height ≤ now.height := by
  have listed : m.target.height ∈ past.map (fun m => m.target.height) :=
    List.mem_map_of_mem member
  rw [chainRun_heights run, List.mem_reverse, List.mem_range'_1] at listed
  omega

private theorem mem_recordedHeaders {external : External} {p : Params}
    {past : List (Move Chain Block)}
    {now : Chain} (run : ChainRun external p past now) {kv : UInt64 × RecoveryHeader}
    (member : kv ∈ recordedHeaders past) :
    ∃ m ∈ past, kv = trackedHeader m ∧ kv.1.toNat = m.target.height := by
  obtain ⟨m, listed, rfl⟩ := List.mem_map.mp member
  have listed' := (List.takeWhile_sublist _).subset (List.mem_reverse.mp listed)
  obtain ⟨_, _, _, _, taken⟩ := run.cut_of_mem listed'
  exact ⟨m, listed', rfl, decided_nextHeight taken⟩

theorem decided_store {external : External} {p : Params} {c c' : Chain} {b : Block}
    (decided : decideBlock external p c b = some c') :
    c'.store = deliverAll external (afterPreBlock external p c b) b.msgs := by
  obtain ⟨_, _, _, _, _, executed, moved⟩ := decideBlock_cases decided
  rw [moved, executed]

private theorem afterPreBlock_untracked {external : External} {p : Params}
    {past : List (Move Chain Block)} {c c' : Chain} {b : Block}
    (run : ChainRun external p past c) (decided : decideBlock external p c b = some c')
    (target : withdrawLocked c'.state = false) :
    (afterPreBlock external p c b).headerHistory.entries = [] := by
  obtain ⟨ext, _, st, carries, kept, executed, _⟩ := decideBlock_cases decided
  have state : c'.state = ext.fsmState := (decided_committed decided carries).currState
  obtain ⟨headersKept, _, latchKept⟩ := kept.recovery
  rw [state] at target
  rw [executed]
  refine (commit_unlocked p c.nextHeight b.appHash target ?_ ?_).1
  · rw [kept.currState]
    exact carries.not_from_sovereign target
  · rw [kept.currState, headersKept, latchKept]
    exact (latchInvariant_of_run run).unlocked

theorem HistoryInvariant.commit {external : External} {p : Params}
    {past : List (Move Chain Block)} {c c' : Chain} {b : Block}
    (run : ChainRun external p past c) (held : HistoryInvariant external p past c)
    (decided : decideBlock external p c b = some c')
    (target : withdrawLocked c'.state = true) :
    Tracks (recordedHeaders (⟨c, b, c'⟩ :: past))
      (checkpointsOf external p (beforeInterval past)) (intervalCheckpoints external p past)
      (afterPreBlock external p c b) := by
  obtain ⟨ext, innerTxs, st, carries, kept, executed, moved⟩ := decideBlock_cases decided
  have state : c'.state = ext.fsmState := (decided_committed decided carries).currState
  obtain ⟨headersKept, rootKept, latchKept⟩ := kept.recovery
  have height := decided_nextHeight decided
  have one := decideBlock_height decided
  have split := checkpointsOf_split external p past
  have recorded : recordedHeaders (⟨c, b, c'⟩ :: past) =
      recordedHeaders past ++ [trackedHeader ⟨c, b, c'⟩] := by
    rw [recordedHeaders, lockedInterval_cons target, List.reverse_cons, List.map_append]
    rfl
  have header : trackedHeader ⟨c, b, c'⟩ =
      (c.nextHeight, ⟨ext.fsmState, true, reduceToField b.appHash⟩) := by
    simp only [trackedHeader, blockRoot, state]
  have later : ∀ a ∈ checkpointsOf external p (beforeInterval past),
      a.height < c.nextHeight.toNat := by
    intro a listed
    have bound := held.bounded a (by rw [split]; exact List.mem_append_left _ listed)
    omega
  rw [state] at target
  rw [recorded, header, executed]
  cases locked : withdrawLocked c.state with
  | true =>
      refine ((held.tracked locked).bookkeeping kept).commit ?_ target ?_ later
      · rw [kept.currState]
        exact locked
      · intro kv member
        have bound := held.recorded kv member
        rw [UInt64.lt_iff_toNat_lt]
        omega
  | false =>
      obtain ⟨none, all⟩ := lockedInterval_unlocked run locked
      obtain ⟨untracked, idle⟩ := (latchInvariant_of_run run).unlocked locked
      rw [recordedHeaders, intervalCheckpoints, none]
      refine .open ?_ ?_ ?_ target ?_ later
      · rw [headersKept, untracked]
      · rw [latchKept, idle]
      · rw [kept.currState]
        exact locked
      · rw [all]
        exact held.increasing

private theorem HistoryInvariant.step_locked {external : External} {p : Params}
    {past : List (Move Chain Block)} {c c' : Chain} {b : Block}
    (run : ChainRun external p past c) (held : HistoryInvariant external p past c)
    (decided : decideBlock external p c b = some c') (target : withdrawLocked c'.state = true) :
    HistoryInvariant external p (⟨c, b, c'⟩ :: past) c' := by
  have run' := run.extend decided
  have height := decideBlock_height decided
  have before : beforeInterval (⟨c, b, c'⟩ :: past) = beforeInterval past := by
    simp [beforeInterval, target]
  have interval : intervalCheckpoints external p (⟨c, b, c'⟩ :: past) =
      intervalCheckpoints external p past ++
        checkpoints external (afterPreBlock external p c b) b.msgs := by
    rw [intervalCheckpoints, lockedInterval_cons target, checkpointsOf]
    rfl
  have tracks := (held.commit run decided target).deliverAll external b.msgs
  rw [← decided_store decided, ← before, ← interval] at tracks
  have recorded : ∀ a ∈ intervalCheckpoints external p (⟨c, b, c'⟩ :: past),
      ∃ m ∈ ⟨c, b, c'⟩ :: past, m.target.height = a.height ∧
        (a.inputs.drop 32).take 32 = blockRoot m := by
    intro a listed
    obtain ⟨kv, member, same, root⟩ := tracks.rooted a listed
    obtain ⟨m, listed', rfl, height'⟩ := mem_recordedHeaders run' member
    exact ⟨m, listed', height'.symm.trans same, root⟩
  have split := checkpointsOf_split external p (⟨c, b, c'⟩ :: past)
  have old : ∀ a ∈ checkpointsOf external p (beforeInterval (⟨c, b, c'⟩ :: past)),
      a ∈ checkpointsOf external p past := by
    intro a listed
    rw [checkpointsOf_split, ← before]
    exact List.mem_append_left _ listed
  refine ⟨?_, fun _ => tracks, by rw [split]; exact tracks.increasing, ?_, ?_⟩
  · intro kv member
    obtain ⟨m, listed, _, height'⟩ := mem_recordedHeaders run' member
    rw [height']
    exact height_le_of_mem run' listed
  · intro a listed
    rw [split] at listed
    rcases List.mem_append.mp listed with older | newer
    · have bound := held.bounded a (old a older)
      omega
    · obtain ⟨m, listed', height', _⟩ := recorded a newer
      rw [← height']
      exact height_le_of_mem run' listed'
  · intro a listed
    rw [split] at listed
    rcases List.mem_append.mp listed with older | newer
    · obtain ⟨m, listed', same⟩ := held.rooted a (old a older)
      exact ⟨m, List.mem_cons_of_mem _ listed', same⟩
    · exact recorded a newer

private theorem HistoryInvariant.step_unlocked {external : External} {p : Params}
    {past : List (Move Chain Block)} {c c' : Chain} {b : Block}
    (run : ChainRun external p past c) (held : HistoryInvariant external p past c)
    (decided : decideBlock external p c b = some c') (target : withdrawLocked c'.state = false) :
    HistoryInvariant external p (⟨c, b, c'⟩ :: past) c' := by
  have run' := run.extend decided
  have height := decideBlock_height decided
  obtain ⟨none, _⟩ := lockedInterval_unlocked run' target
  have untracked := afterPreBlock_untracked run decided target
  have same :
      checkpointsOf external p (⟨c, b, c'⟩ :: past) = checkpointsOf external p past := by
    rw [checkpointsOf, checkpoints_untracked b.msgs untracked, List.append_nil]
  refine ⟨by simp [recordedHeaders, none], fun locked => ?_, ?_, ?_, ?_⟩
  · rw [target] at locked
    cases locked
  · rw [same]
    exact held.increasing
  · intro a listed
    rw [same] at listed
    have bound := held.bounded a listed
    omega
  · intro a listed
    rw [same] at listed
    obtain ⟨m, listed', found⟩ := held.rooted a listed
    exact ⟨m, List.mem_cons_of_mem _ listed', found⟩

theorem HistoryInvariant.step {external : External} {p : Params}
    {past : List (Move Chain Block)} {c c' : Chain} {b : Block}
    (run : ChainRun external p past c) (held : HistoryInvariant external p past c)
    (decided : decideBlock external p c b = some c') :
    HistoryInvariant external p (⟨c, b, c'⟩ :: past) c' := by
  cases target : withdrawLocked c'.state with
  | true => exact held.step_locked run decided target
  | false => exact held.step_unlocked run decided target

theorem historyInvariant_of_run {external : External} {p : Params}
    {past : List (Move Chain Block)} {now : Chain} (run : ChainRun external p past now) :
    HistoryInvariant external p past now := by
  induction run with
  | initial =>
      exact ⟨by simp [recordedHeaders, lockedInterval], fun locked => absurd locked (by decide),
        List.Pairwise.nil, by simp [checkpointsOf], by simp [checkpointsOf]⟩
  | extend before taken ih => exact ih.step before taken

private theorem recordedHeaders_heights {external : External} {p : Params}
    {past : List (Move Chain Block)} {now : Chain} (run : ChainRun external p past now) :
    (lockedInterval past).length ≤ now.height ∧
      (recordedHeaders past).map (fun kv => kv.1.toNat) =
        List.range' (firstLocked past now) (lockedInterval past).length := by
  have heights := chainRun_heights run
  have length : past.length = now.height := by
    simpa using congrArg List.length heights
  have shorter : (lockedInterval past).length ≤ past.length :=
    (List.takeWhile_sublist _).length_le
  have leading : lockedInterval past = past.take (lockedInterval past).length :=
    List.prefix_iff_eq_take.mp (List.takeWhile_prefix _)
  have targets : (recordedHeaders past).map (fun kv => kv.1.toNat) =
      ((lockedInterval past).map (fun m => m.target.height)).reverse := by
    rw [recordedHeaders, List.map_map, List.map_reverse]
    congr 1
    apply List.map_congr_left
    intro m member
    obtain ⟨_, _, _, _, taken⟩ := run.cut_of_mem ((List.takeWhile_sublist _).subset member)
    exact decided_nextHeight taken
  refine ⟨by omega, ?_⟩
  have start : 1 + (now.height - (lockedInterval past).length) * 1 = firstLocked past now := by
    unfold firstLocked
    omega
  rw [targets, leading, List.map_take, heights, List.take_reverse, List.reverse_reverse,
    List.length_range', List.drop_range', ← leading, start]
  congr 1
  omega

private theorem filter_range'_lt {first count floor : ℕ} (low : first ≤ floor + 1) :
    (List.range' first count).filter (fun k => floor < k) =
      List.range' (floor + 1) (first + count - (floor + 1)) := by
  induction count generalizing first with
  | zero => simp [show first - (floor + 1) = 0 by omega]
  | succ count ih =>
      by_cases reached : first = floor + 1
      · have kept : (List.range' first (count + 1)).filter (fun k => floor < k) =
            List.range' first (count + 1) := by
          rw [List.filter_eq_self]
          intro k member
          rw [List.mem_range'_1] at member
          exact decide_eq_true (by omega)
        rw [kept, reached, Nat.add_sub_cancel_left]
      · rw [List.range'_succ, List.filter_cons_of_neg (by simp; omega), ih (by omega)]
        congr 1
        omega

structure IntervalTracked (external : External) (p : Params) (past : List (Move Chain Block))
    (now : Chain) : Prop where
  keys : now.store.headerHistory.entries.map (fun kv => kv.1.toNat) =
    List.range' (lastCheckpoint external p past now + 1)
      (now.height - lastCheckpoint external p past now)
  headers : ∀ kv ∈ now.store.headerHistory.entries, ∃ m ∈ past,
    m.target.height = kv.1.toNat ∧ kv.2 = ⟨m.target.state, true, reduceToField m.input.appHash⟩
  unproven : intervalCheckpoints external p past = [] → ∃ m ∈ past,
    m.target.height = firstLocked past now ∧
      now.store.lastAnchoredRoot = some (reduceToField m.input.appHash)
  proven : intervalCheckpoints external p past ≠ [] → ∃ m ∈ past,
    m.target.height = lastCheckpoint external p past now ∧
      now.store.lastAnchoredRoot = some (reduceToField m.input.appHash)
  latch : now.store.realProofSubmittedHeight = 0 ∨
    now.store.realProofSubmittedHeight.toNat = lastCheckpoint external p past now
  within : firstLocked past now ≤ lastCheckpoint external p past now + 1 ∧
    lastCheckpoint external p past now ≤ now.height

/-- The recovery bookkeeping of a reachable store, and the proofs accepted so far. -/
structure HeaderHistoryExact (external : External) (p : Params)
    (past : List (Move Chain Block)) (now : Chain) : Prop where
  unlocked : now.state = .anchored ∨ now.state = .suspicious →
    now.store.headerHistory.entries = [] ∧ now.store.realProofSubmittedHeight = 0
  locked : ¬ (now.state = .anchored ∨ now.state = .suspicious) →
    IntervalTracked external p past now
  increasing : (checkpointsOf external p past).Pairwise (fun a b => a.height < b.height)
  fresh : ((checkpointsOf external p past).map Checkpoint.inputs).Nodup

section Exact

variable {external : External} {p : Params} {past : List (Move Chain Block)} {now : Chain}

private theorem height_le_last {cs : List Checkpoint} {last a : Checkpoint}
    (increasing : cs.Pairwise (fun a b => a.height < b.height)) (final : cs.getLast? = some last)
    (listed : a ∈ cs) : a.height ≤ last.height := by
  obtain ⟨init, rfl⟩ := List.getLast?_eq_some_iff.mp final
  rcases List.mem_append.mp listed with old | new
  · exact ((List.pairwise_append.mp increasing).2.2 a old last (List.mem_singleton_self _)).le
  · rw [List.mem_singleton.mp new]

private theorem aboveAll_iff_last (held : HistoryInvariant external p past now)
    (locked : withdrawLocked now.state = true)
    (earlier : ∀ a ∈ checkpointsOf external p (beforeInterval past),
      a.height < firstLocked past now)
    {height : UInt64} (inside : firstLocked past now ≤ height.toNat)
    (positive : 1 ≤ firstLocked past now) :
    aboveAll (checkpointsOf external p (beforeInterval past) ++
        intervalCheckpoints external p past) height =
      decide (lastCheckpoint external p past now < height.toNat) := by
  have increasing := (held.tracked locked).increasing
  have older : aboveAll (checkpointsOf external p (beforeInterval past)) height = true := by
    rw [aboveAll, List.all_eq_true]
    intro a listed
    exact decide_eq_true (lt_of_lt_of_le (earlier a listed) inside)
  rw [aboveAll_append, older, Bool.true_and]
  unfold lastCheckpoint
  cases final : (intervalCheckpoints external p past).getLast? with
  | none =>
      rw [List.getLast?_eq_none_iff.mp final]
      simp only [aboveAll, List.all_nil]
      exact (decide_eq_true (by omega)).symm
  | some last =>
      have among := List.mem_of_getLast? final
      have newer := (List.pairwise_append.mp increasing).2.1
      rw [aboveAll, Bool.eq_iff_iff, List.all_eq_true, decide_eq_true_iff]
      constructor
      · intro all
        exact of_decide_eq_true (all last among)
      · intro below a listed
        exact decide_eq_true (lt_of_le_of_lt (height_le_last newer final listed) below)

private theorem earlier_checkpoints (run : ChainRun external p past now) {a : Checkpoint}
    (listed : a ∈ checkpointsOf external p (beforeInterval past)) :
    a.height < firstLocked past now := by
  have length := congrArg List.length (chainRun_heights run)
  have whole : lockedInterval past ++ beforeInterval past = past :=
    List.takeWhile_append_dropWhile
  rw [← whole] at run
  obtain ⟨earlier, before⟩ := run.drop
  have length' := congrArg List.length (chainRun_heights before)
  have bound := (historyInvariant_of_run before).bounded a listed
  simp only [List.length_map, List.length_reverse, List.length_range'] at length length'
  rw [← whole, List.length_append] at length
  unfold firstLocked
  omega

private theorem withdrawLocked_of_run (run : ChainRun external p past now) :
    withdrawLocked now.state = true ↔ ¬ (now.state = .anchored ∨ now.state = .suspicious) := by
  have named := (chainRun_fsmRun run).recoverableInvariant.named
  change now.state ∈ _ at named
  cases state : now.state <;> simp [state, withdrawLocked] at named ⊢

theorem firstLocked_le_recorded (run : ChainRun external p past now)
    {kv : UInt64 × RecoveryHeader} (member : kv ∈ recordedHeaders past) :
    firstLocked past now ≤ kv.1.toNat := by
  have listed : kv.1.toNat ∈ (recordedHeaders past).map (fun kv => kv.1.toNat) :=
    List.mem_map_of_mem (f := fun kv => kv.1.toNat) member
  rw [(recordedHeaders_heights run).2, List.mem_range'_1] at listed
  exact listed.1

private theorem recordedHeaders_first (run : ChainRun external p past now)
    {kv : UInt64 × RecoveryHeader} {rest : List (UInt64 × RecoveryHeader)}
    (first : recordedHeaders past = kv :: rest) : kv.1.toNat = firstLocked past now := by
  have start := congrArg List.head? (recordedHeaders_heights run).2
  rw [first] at start
  cases count : (lockedInterval past).length with
  | zero => simp [count] at start
  | succ n =>
      rw [count, List.range'_succ, List.map_cons, List.head?_cons, List.head?_cons] at start
      exact Option.some.inj start

theorem firstLocked_pos (run : ChainRun external p past now) : 1 ≤ firstLocked past now := by
  have fits := (recordedHeaders_heights run).1
  unfold firstLocked
  omega

private theorem entries_above_last (run : ChainRun external p past now)
    (locked : withdrawLocked now.state = true) :
    now.store.headerHistory.entries = (recordedHeaders past).filter
      (fun kv => decide (lastCheckpoint external p past now < kv.1.toNat)) := by
  have held := historyInvariant_of_run run
  rw [(held.tracked locked).entries]
  apply List.filter_congr
  intro kv member
  exact aboveAll_iff_last held locked (fun _ listed => earlier_checkpoints run listed)
    (firstLocked_le_recorded run member) (firstLocked_pos run)

private theorem lastCheckpoint_within (run : ChainRun external p past now)
    (locked : withdrawLocked now.state = true) :
    firstLocked past now ≤ lastCheckpoint external p past now + 1 ∧
      lastCheckpoint external p past now ≤ now.height := by
  have held := historyInvariant_of_run run
  have fits := (recordedHeaders_heights run).1
  have last : firstLocked past now + (lockedInterval past).length = now.height + 1 := by
    unfold firstLocked
    omega
  have positive := firstLocked_pos run
  unfold lastCheckpoint
  cases final : (intervalCheckpoints external p past).getLast? with
  | none =>
      simp only
      omega
  | some a =>
      obtain ⟨kv, member, same, _⟩ := (held.tracked locked).proven a final
      have low := firstLocked_le_recorded run member
      have high := held.recorded kv member
      simp only
      omega

theorem intervalTracked_of_run (run : ChainRun external p past now)
    (locked : withdrawLocked now.state = true) : IntervalTracked external p past now := by
  have tracks := (historyInvariant_of_run run).tracked locked
  have entries := entries_above_last run locked
  have within := lastCheckpoint_within run locked
  obtain ⟨fits, heights⟩ := recordedHeaders_heights run
  refine ⟨?_, ?_, ?_, ?_, ?_, within⟩
  · have last : firstLocked past now + (lockedInterval past).length = now.height + 1 := by
      unfold firstLocked
      omega
    have kept := congrArg (List.filter (fun k => decide (lastCheckpoint external p past now < k)))
      heights
    rw [List.filter_map, filter_range'_lt within.1, last] at kept
    rw [entries]
    apply Eq.trans kept
    congr 1
    omega
  · intro kv member
    rw [entries] at member
    obtain ⟨m, listed, rfl, height⟩ := mem_recordedHeaders run (List.mem_of_mem_filter member)
    exact ⟨m, listed, height.symm, rfl⟩
  · intro none
    have root := tracks.unproven none
    cases first : recordedHeaders past with
    | nil => exact absurd first tracks.nonempty
    | cons kv rest =>
        rw [first, List.head?_cons, Option.map_some] at root
        obtain ⟨m, listed, rfl, height⟩ :=
          mem_recordedHeaders run (first ▸ List.mem_cons_self : kv ∈ recordedHeaders past)
        exact ⟨m, listed, height.symm.trans (recordedHeaders_first run first), root.symm⟩
  · intro some
    have final := List.getLast?_eq_some_getLast some
    obtain ⟨kv, member, same, root⟩ := tracks.proven _ final
    obtain ⟨m, listed, rfl, height⟩ := mem_recordedHeaders run member
    refine ⟨m, listed, ?_, root⟩
    rw [← height, same, lastCheckpoint, final]
  · apply tracks.latch.imp_right
    rintro ⟨a, final, same⟩
    rw [same, lastCheckpoint, final]

/-- In every reachable state the recovery bookkeeping is exactly the part of the
current locked interval that is not proven yet, and no proof counts twice. -/
theorem headerHistory_exact (run : ChainRun external p past now)
    (distinct : (past.map (fun m => reduceToField m.input.appHash)).Nodup) :
    HeaderHistoryExact external p past now := by
  have held := historyInvariant_of_run run
  refine ⟨?_, ?_, held.increasing, ?_⟩
  · intro unlocked
    apply (latchInvariant_of_run run).unlocked
    rcases unlocked with state | state <;> rw [state] <;> rfl
  · intro locked
    exact intervalTracked_of_run run ((withdrawLocked_of_run run).mpr locked)
  · -- equal public inputs name equal roots, hence the same block
    rw [List.Nodup, List.pairwise_map]
    apply held.increasing.imp_of_mem
    intro a b memberA memberB below same
    obtain ⟨m, listed, height, root⟩ := held.rooted a memberA
    obtain ⟨m', listed', height', root'⟩ := held.rooted b memberB
    have equal : blockRoot m = blockRoot m' := by rw [← root, ← root', same]
    have block := List.inj_on_of_nodup_map distinct listed listed' equal
    rw [← height, ← height', block] at below
    exact lt_irrefl _ below

end Exact

/-- Four locked blocks and a proof up to the third: the header of the fourth is
left, and the checkpoint is the third. -/
theorem headerHistory_exact_provenOutage :
    ∃ past now, ChainRun outageExternal defaultParams past now ∧
      firstLocked past now = 2 ∧ lastCheckpoint outageExternal defaultParams past now = 4 ∧
      HeaderHistoryExact outageExternal defaultParams past now ∧
      now.store.headerHistory.entries.map (fun kv => kv.1.toNat) = [5] := by
  obtain ⟨past, now, run, passed⟩ := exists_run_of_replayPasses
    (decideBlock outageExternal defaultParams) genesisChain (provenOutage.take 5)
    (fun past now => now.state == .recovering && now.height == 5 &&
      firstLocked past now == 2 &&
      lastCheckpoint outageExternal defaultParams past now == 4 &&
      decide (past.map (fun m => reduceToField m.input.appHash)).Nodup)
    (by decide +kernel)
  simp only [Bool.and_eq_true, beq_iff_eq, decide_eq_true_eq] at passed
  obtain ⟨⟨⟨⟨state, height⟩, first⟩, checkpoint⟩, distinct⟩ := passed
  have exact := headerHistory_exact run distinct
  refine ⟨past, now, run, first, checkpoint, exact, ?_⟩
  rw [(exact.locked (by simp [state])).keys, checkpoint, height]
  rfl

end Engram.Chain
