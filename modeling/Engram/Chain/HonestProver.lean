import Engram.Chain.HeaderHistory
import Engram.Chain.ProofCoverage
import Engram.Circuit.Witness

/-!
The honest prover against the keeper. The prover takes what the query returns,
encodes it into field elements, links the oldest headers, pads, and submits. In
every reachable store the result satisfies the circuit and is accepted.
-/

set_option autoImplicit false
set_option relaxedAutoImplicit false

namespace Engram.Chain

open Engram.Types Engram.Keeper Engram.Node Engram.Library Engram.Circuit

structure QueryRecoveryHeader where
  height : UInt64
  fsmState : FSMState
  withdrawalLocked : Bool
  stateRoot : Bytes

structure QueryRecoveryHeadersResponse where
  lastAnchoredRoot : Bytes
  headers : List QueryRecoveryHeader

/-- The query `RecoveryHeaders`: headers ascending by height. -/
def recoveryHeaders (st : Store) : QueryRecoveryHeadersResponse where
  lastAnchoredRoot := st.lastAnchoredRoot.getD []
  headers := st.headerHistory.entries.map (fun kv =>
    ⟨kv.1, kv.2.fsmState, kv.2.withdrawalLocked, kv.2.stateRoot⟩)

/-- A root as the command line prints it, read as a field element. -/
def bytesToField (b : Bytes) : Field := Fin.ofNat _ (bigEndian b)

def rawHeader (h : QueryRecoveryHeader) : RawHeader :=
  ⟨fsmStateToField h.fsmState, boolToField h.withdrawalLocked, bytesToField h.stateRoot⟩

structure ProverInstance where
  rtLast : Field
  rtNew : Field
  count : UInt32
  headers : Headers

def ProverInstance.publicInputs (inst : ProverInstance) : Bytes :=
  Circuit.publicInputs inst.rtLast inst.rtNew inst.count

/-- `prove_and_submit.sh` up to the proof; it stops when nothing is tracked. -/
def proverInstance (poseidon2Permutation : Sponge → Sponge)
    (resp : QueryRecoveryHeadersResponse) : Option ProverInstance :=
  let totalN := resp.headers.length
  if totalN < 1 then none
  else
    let count := if totalN > nMax then nMax else totalN
    let raws := (resp.headers.take count).map rawHeader ++
      List.replicate (nMax - count) zeroRawHeader
    let rtLast := bytesToField resp.lastAnchoredRoot
    let linked := linkedChain poseidon2Permutation rtLast count raws
    some ⟨rtLast, (linked.getD (count - 1) zeroHeader).stateRoot, count.toUInt32,
      paddedHeaders linked⟩

def Complete (poseidon2Permutation : Sponge → Sponge) (prove : ProverInstance → Bytes)
    (verifyZKProof : Bytes → Bytes → Bool) : Prop :=
  ∀ inst : ProverInstance,
    Main poseidon2Permutation inst.rtLast inst.rtNew inst.count inst.headers →
      verifyZKProof (prove inst) inst.publicInputs = true

/-- One round of the script against the store: query, prove, submit. -/
def proveAndSubmit (poseidon2Permutation : Sponge → Sponge) (prove : ProverInstance → Bytes)
    (verifyZKProof : Bytes → Bytes → Bool) (st : Store) (daCelestiaHeight : UInt64) : Store :=
  match proverInstance poseidon2Permutation (recoveryHeaders st) with
  | none => st
  | some inst =>
      match submitRecoveryProof verifyZKProof st
          ⟨prove inst, inst.publicInputs, daCelestiaHeight⟩ with
      | .ok st' => st'
      | .error _ => st

/-- A store the honest prover can work on: one lock flag, reduced roots, no root
twice. -/
structure Provable (st : Store) : Prop where
  anchored : ∃ b, st.lastAnchoredRoot = some (reduceToField b)
  locked : ∀ kv ∈ st.headerHistory.entries, kv.2.withdrawalLocked = true
  reduced : ∀ kv ∈ st.headerHistory.entries, ∃ b, kv.2.stateRoot = reduceToField b
  distinct : (st.headerHistory.entries.map (fun kv => kv.2.stateRoot)).Nodup

private theorem fillBytes_bytesToField (b : Bytes) :
    fillBytes (bytesToField (reduceToField b)).val = reduceToField b := by
  obtain ⟨small, same⟩ := fillBytes_bigEndian_reduceToField b
  rw [bytesToField, Fin.val_ofNat, Nat.mod_eq_of_lt small, same]

def provenCount (st : Store) : ℕ := min st.headerHistory.entries.length nMax

section Rounds

variable {poseidon2Permutation : Sponge → Sponge} {prove : ProverInstance → Bytes}
  {verifyZKProof : Bytes → Bytes → Bool} {st : Store}

private theorem provenCount_pos (tracked : st.headerHistory.entries ≠ []) :
    1 ≤ provenCount st ∧ provenCount st ≤ nMax ∧
      provenCount st ≤ st.headerHistory.entries.length := by
  have positive := List.length_pos_iff.mpr tracked
  unfold provenCount nMax
  omega

def scriptRaws (st : Store) : List RawHeader :=
  ((recoveryHeaders st).headers.take (provenCount st)).map rawHeader ++
    List.replicate (nMax - provenCount st) zeroRawHeader

private theorem scriptRaws_getElem? (st : Store) {k : ℕ} (below : k < provenCount st) :
    ∃ kv, st.headerHistory.entries[k]? = some kv ∧ (scriptRaws st)[k]? = some
      ⟨fsmStateToField kv.2.fsmState, boolToField kv.2.withdrawalLocked,
        bytesToField kv.2.stateRoot⟩ := by
  have inside : k < st.headerHistory.entries.length :=
    lt_of_lt_of_le below (Nat.min_le_left _ _)
  refine ⟨_, List.getElem?_eq_getElem inside, ?_⟩
  have left : k < (((recoveryHeaders st).headers.take (provenCount st)).map rawHeader).length := by
    simp only [recoveryHeaders, List.length_map, List.length_take]
    omega
  rw [scriptRaws, List.getElem?_append_left left, List.getElem?_map,
    List.getElem?_take_of_lt below, recoveryHeaders, List.getElem?_map,
    List.getElem?_eq_getElem inside]
  rfl

private theorem proverInstance_tracked {root : Bytes} (tracked : st.headerHistory.entries ≠ [])
    (anchored : st.lastAnchoredRoot = some root) :
    let linked := linkedChain poseidon2Permutation (bytesToField root) (provenCount st)
      (scriptRaws st)
    proverInstance poseidon2Permutation (recoveryHeaders st) = some
      ⟨bytesToField root, (linked.getD (provenCount st - 1) zeroHeader).stateRoot,
        (provenCount st).toUInt32, paddedHeaders linked⟩ := by
  intro linked
  have positive := List.length_pos_iff.mpr tracked
  have length : (recoveryHeaders st).headers.length = st.headerHistory.entries.length :=
    List.length_map _
  have count : (if (recoveryHeaders st).headers.length > nMax then nMax
      else (recoveryHeaders st).headers.length) = provenCount st := by
    unfold provenCount
    split <;> omega
  have last : (recoveryHeaders st).lastAnchoredRoot = root := by
    rw [recoveryHeaders, anchored, Option.getD_some]
  simp only [proverInstance, count, last]
  rw [if_neg (by omega)]
  rfl

private theorem proverInstance_provable (poseidon2Permutation : Sponge → Sponge)
    (provable : Provable st) (tracked : st.headerHistory.entries ≠ []) :
    ∃ inst kv, proverInstance poseidon2Permutation (recoveryHeaders st) = some inst ∧
      st.headerHistory.entries[provenCount st - 1]? = some kv ∧
      inst.count.toNat = provenCount st ∧
      Main poseidon2Permutation inst.rtLast inst.rtNew inst.count inst.headers ∧
      st.lastAnchoredRoot = some (fillBytes inst.rtLast.val) ∧
      kv.2.stateRoot = fillBytes inst.rtNew.val := by
  obtain ⟨positive, fits, within⟩ := provenCount_pos tracked
  have small : provenCount st ≤ 256 := fits
  have counted : (provenCount st).toUInt32.toNat = provenCount st :=
    Nat.mod_eq_of_lt (by omega)
  obtain ⟨b, anchored⟩ := provable.anchored
  obtain ⟨kv, final, finalRaw⟩ := scriptRaws_getElem? st (k := provenCount st - 1) (by omega)
  obtain ⟨b', reduced⟩ := provable.reduced kv (List.mem_of_getElem? final)
  have admitted : ∀ k < (provenCount st).toUInt32.toNat, ∃ raw, (scriptRaws st)[k]? = some raw ∧
      (raw.fsmState = 2 ∨ raw.fsmState = 3) ∧ raw.withdrawalLocked = 1 := by
    intro k below
    rw [counted] at below
    obtain ⟨kv, member, raw⟩ := scriptRaws_getElem? st below
    refine ⟨_, raw, ?_, ?_⟩
    · simp only [fsmStateToField]
      split <;> simp
    · simp only [boolToField, provable.locked kv (List.mem_of_getElem? member), if_true]
  have satisfied := Main.linked poseidon2Permutation (bytesToField (reduceToField b))
    (by rw [counted]; exact positive) (by rw [counted]; exact fits) admitted
    (by rw [counted]; exact finalRaw)
  rw [counted] at satisfied
  have rtNew : ((linkedChain poseidon2Permutation (bytesToField (reduceToField b))
      (provenCount st) (scriptRaws st)).getD (provenCount st - 1) zeroHeader).stateRoot =
        bytesToField kv.2.stateRoot := by
    obtain ⟨h, printed, _, _, root, _⟩ := linkFrom_getElem? poseidon2Permutation
      (bytesToField (reduceToField b)) (i := 0) finalRaw
      (by omega : 0 + (provenCount st - 1) < provenCount st)
    rw [linkedChain, List.getD_eq_getElem?_getD, printed, Option.getD_some, root]
  refine ⟨_, kv, proverInstance_tracked tracked anchored, final, counted, ?_, ?_, ?_⟩
  · simp only [rtNew]
    exact satisfied
  · simp only [fillBytes_bytesToField, anchored]
  · simp only [rtNew, reduced, fillBytes_bytesToField]

private theorem findHeaderByStateRoot_distinct (provable : Provable st)
    {kv : UInt64 × RecoveryHeader} (member : kv ∈ st.headerHistory.entries) :
    st.findHeaderByStateRoot kv.2.stateRoot = some kv.1 := by
  have found :
      (st.headerHistory.entries.find? (fun e => e.2.stateRoot == kv.2.stateRoot)).isSome := by
    rw [List.find?_isSome]
    exact ⟨kv, member, by simp⟩
  obtain ⟨e, first⟩ := Option.isSome_iff_exists.mp found
  have root : e.2.stateRoot = kv.2.stateRoot := by simpa using List.find?_some first
  have same := List.inj_on_of_nodup_map provable.distinct (List.mem_of_find?_eq_some first) member
    root
  rw [Store.findHeaderByStateRoot, first, Option.map_some, same]

private theorem submit_accepted (provable : Provable st) (tracked : st.headerHistory.entries ≠ [])
    (complete : Complete poseidon2Permutation prove verifyZKProof) :
    ∃ inst, proverInstance poseidon2Permutation (recoveryHeaders st) = some inst ∧
      st.lastAnchoredRoot = some (fillBytes inst.rtLast.val) ∧
      (st.headerHistory.entries[provenCount st - 1]?).map (fun kv => kv.2.stateRoot) =
        some (fillBytes inst.rtNew.val) ∧
      inst.count.toNat = provenCount st ∧
      Main poseidon2Permutation inst.rtLast inst.rtNew inst.count inst.headers ∧
      ∀ daCelestiaHeight, ∃ st',
        submitRecoveryProof verifyZKProof st ⟨prove inst, inst.publicInputs, daCelestiaHeight⟩ =
          .ok st' ∧
        st'.headerHistory.entries = st.headerHistory.entries.drop (provenCount st) ∧
        Provable st' := by
  obtain ⟨positive, _, _⟩ := provenCount_pos tracked
  obtain ⟨inst, kv, made, final, counted, satisfied, last, new⟩ :=
    proverInstance_provable poseidon2Permutation provable tracked
  refine ⟨inst, made, last, by rw [final, Option.map_some, new], counted, satisfied, ?_⟩
  intro daCelestiaHeight
  obtain ⟨length, sliceLast, sliceNew⟩ := publicInputs_slices inst.rtLast inst.rtNew inst.count
  have member := List.mem_of_getElem? final
  have found : st.findHeaderByStateRoot ((inst.publicInputs.drop 32).take 32) = some kv.1 := by
    rw [ProverInstance.publicInputs, sliceNew, ← new]
    exact findHeaderByStateRoot_distinct provable member
  obtain ⟨st', accepted⟩ := submitRecoveryProof_accepts
    ⟨prove inst, inst.publicInputs, daCelestiaHeight⟩ (complete inst satisfied) length
    (by rw [last, ← sliceLast]; rfl) found
  refine ⟨st', accepted, ?_⟩
  obtain ⟨_, _, _, height, found', _, moved⟩ := submitRecoveryProof_cases accepted
  obtain rfl : height = kv.1 := Option.some.inj (found'.symm.trans found)
  have entries : st'.headerHistory.entries = st.headerHistory.entries.drop (provenCount st) := by
    rw [moved]
    change (st.pruneHeaderHistoryUpTo kv.1).headerHistory.entries = _
    rw [pruneHeaderHistoryUpTo_entries, OrderedMap.filter_above_eq_drop _ final]
    congr 1
    omega
  have kept : ∀ e ∈ st'.headerHistory.entries, e ∈ st.headerHistory.entries := by
    intro e listed
    rw [entries] at listed
    exact List.mem_of_mem_drop listed
  obtain ⟨b, reduced⟩ := provable.reduced kv member
  refine ⟨entries, ⟨⟨b, ?_⟩, fun e listed => provable.locked e (kept e listed),
    fun e listed => provable.reduced e (kept e listed), ?_⟩⟩
  · rw [moved, ← reduced, new, ← sliceNew]
    rfl
  · rw [entries, List.map_drop]
    exact provable.distinct.sublist (List.drop_sublist _ _)

private theorem rounds_empty (provable : Provable st)
    (complete : Complete poseidon2Permutation prove verifyZKProof) (daCelestiaHeights : List UInt64)
    (enough : st.headerHistory.entries.length ≤ nMax * daCelestiaHeights.length) :
    (daCelestiaHeights.foldl (proveAndSubmit poseidon2Permutation prove verifyZKProof)
      st).headerHistory.entries = [] := by
  induction daCelestiaHeights generalizing st with
  | nil =>
      rw [List.length_nil, Nat.mul_zero] at enough
      exact List.length_eq_zero_iff.mp (Nat.le_zero.mp enough)
  | cons daCelestiaHeight rest ih =>
      rw [List.foldl_cons]
      by_cases tracked : st.headerHistory.entries = []
      · have idle : proveAndSubmit poseidon2Permutation prove verifyZKProof st daCelestiaHeight =
            st := by
          simp [proveAndSubmit, proverInstance, recoveryHeaders, tracked]
        rw [idle]
        exact ih provable (by simp [tracked])
      · obtain ⟨inst, made, _, _, _, _, accepts⟩ := submit_accepted provable tracked complete
        obtain ⟨st', accepted, entries, next⟩ := accepts daCelestiaHeight
        have moved : proveAndSubmit poseidon2Permutation prove verifyZKProof st daCelestiaHeight =
            st' := by
          simp only [proveAndSubmit, made, accepted]
        rw [moved]
        apply ih next
        rw [entries, List.length_drop]
        rw [List.length_cons, Nat.mul_add] at enough
        unfold provenCount
        omega

end Rounds

private theorem provable_of_run {external : External} {p : Params} {past : List (Move Chain Block)}
    {now : Chain} (run : ChainRun external p past now)
    (distinct : (past.map (fun m => reduceToField m.input.appHash)).Nodup)
    (tracked : now.store.headerHistory.entries ≠ []) : Provable now.store := by
  have locked : withdrawLocked now.state = true := by
    rw [← Bool.not_eq_false]
    intro unlocked
    exact tracked ((latchInvariant_of_run run).unlocked unlocked).1
  have interval := intervalTracked_of_run run locked
  refine ⟨?_, ?_, ?_, ?_⟩
  · by_cases proven : intervalCheckpoints external p past = []
    · obtain ⟨m, _, _, root⟩ := interval.unproven proven
      exact ⟨_, root⟩
    · obtain ⟨m, _, _, root⟩ := interval.proven proven
      exact ⟨_, root⟩
  · intro kv member
    obtain ⟨m, _, _, header⟩ := interval.headers kv member
    rw [header]
  · intro kv member
    obtain ⟨m, _, _, header⟩ := interval.headers kv member
    exact ⟨m.input.appHash, by rw [header]⟩
  · rw [((historyInvariant_of_run run).tracked locked).entries]
    have blocks : ((lockedInterval past).map blockRoot).Nodup :=
      distinct.sublist ((List.takeWhile_sublist _).map _)
    have recorded : ((recordedHeaders past).map (fun kv => kv.2.stateRoot)).Nodup := by
      rw [recordedHeaders, List.map_map, List.map_reverse, List.nodup_reverse]
      exact blocks
    exact recorded.sublist (List.filter_sublist.map _)

/-- In every reachable state with tracked headers, the honest prover's instance
satisfies the circuit and its proof is accepted and removes the headers it covers;
enough rounds remove all of them. -/
theorem honest_prover_complete {external : External} {p : Params}
    {past : List (Move Chain Block)} {now : Chain} (run : ChainRun external p past now)
    (distinct : (past.map (fun m => reduceToField m.input.appHash)).Nodup)
    {poseidon2Permutation : Sponge → Sponge} {prove : ProverInstance → Bytes}
    (complete : Complete poseidon2Permutation prove external.verifyZKProof)
    (tracked : now.store.headerHistory.entries ≠ []) :
    let n := now.store.headerHistory.entries.length
    (∃ inst, proverInstance poseidon2Permutation (recoveryHeaders now.store) = some inst ∧
      now.store.lastAnchoredRoot = some (fillBytes inst.rtLast.val) ∧
      (now.store.headerHistory.entries[min n 256 - 1]?).map (fun kv => kv.2.stateRoot) =
        some (fillBytes inst.rtNew.val) ∧
      inst.count.toNat = min n 256 ∧
      Main poseidon2Permutation inst.rtLast inst.rtNew inst.count inst.headers ∧
      ∀ daCelestiaHeight, ∃ st',
        submitRecoveryProof external.verifyZKProof now.store
          ⟨prove inst, inst.publicInputs, daCelestiaHeight⟩ = .ok st' ∧
        st'.headerHistory.entries = now.store.headerHistory.entries.drop (min n 256)) ∧
    ∀ daCelestiaHeights : List UInt64, n ≤ 256 * daCelestiaHeights.length →
      (daCelestiaHeights.foldl
        (proveAndSubmit poseidon2Permutation prove external.verifyZKProof)
        now.store).headerHistory.entries = [] := by
  intro n
  have provable := provable_of_run run distinct tracked
  obtain ⟨inst, made, last, new, counted, satisfied, accepts⟩ :=
    submit_accepted provable tracked complete
  refine ⟨⟨inst, made, last, new, counted, satisfied, ?_⟩, ?_⟩
  · intro daCelestiaHeight
    obtain ⟨st', accepted, entries, _⟩ := accepts daCelestiaHeight
    exact ⟨st', accepted, entries⟩
  · intro daCelestiaHeights enough
    exact rounds_empty provable complete daCelestiaHeights enough

section Sample

/-- A verifier that accepts every well-formed list of public inputs: each of them
is an instance some witness satisfies. -/
def formExternal : External :=
  .ofProposals [attestedProposal .sovereign false 0 0, attestedProposal .recovering true 0 0]
    (fun _ inputs => inputs.length == 96)

private theorem formExternal_complete :
    Complete id (fun _ => []) formExternal.verifyZKProof := by
  intro inst _
  exact beq_iff_eq.mpr (publicInputs_slices inst.rtLast inst.rtNew inst.count).1

/-- Two tracked headers, removed by one round of the honest prover. -/
theorem honest_prover_two_headers :
    ∃ past now, ChainRun formExternal defaultParams past now ∧
      now.store.headerHistory.entries.length = 2 ∧
      ([0].foldl (proveAndSubmit id (fun _ => []) formExternal.verifyZKProof)
        now.store).headerHistory.entries = [] := by
  obtain ⟨past, now, run, passed⟩ := exists_run_of_replayPasses
    (decideBlock formExternal defaultParams) genesisChain
    [proposalBlock (outageSensors 0) (attestedProposal .sovereign false 0 0) [1] [],
      proposalBlock (liveSensors 4 0) (attestedProposal .recovering true 0 0) [2] []]
    (fun past now => now.store.headerHistory.entries.length == 2 &&
      decide (past.map (fun m => reduceToField m.input.appHash)).Nodup)
    (by decide +kernel)
  simp only [Bool.and_eq_true, beq_iff_eq, decide_eq_true_eq] at passed
  obtain ⟨two, distinct⟩ := passed
  have tracked : now.store.headerHistory.entries ≠ [] := by
    intro empty
    simp [empty] at two
  have rounds := (honest_prover_complete run distinct formExternal_complete tracked).2 [0]
    (by rw [two]; decide)
  exact ⟨past, now, run, two, rounds⟩

end Sample

end Engram.Chain
