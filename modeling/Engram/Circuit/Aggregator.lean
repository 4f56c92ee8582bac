import Engram.Circuit.PhiRecovery
import Engram.Circuit.Witness
import Mathlib.Data.List.OfFn

/-!
Recursive aggregation. The leaf circuit has no padding: it proves a fixed number of
headers. The aggregator verifies a row of leaf proofs under one fixed key and meets the
end of each leaf with the start of the next.
-/

set_option autoImplicit false
set_option relaxedAutoImplicit false

namespace Engram.Circuit

section Leaf

variable (poseidon2Permutation : Sponge → Sponge) {n : ℕ}

/-- `main` of the leaf circuit, over `N = n + 1` headers. -/
def Leaf.main (rtLast rtNew : Field) (headers : Fin (n + 1) → Header) : Bool :=
  ((List.finRange n).all fun i =>
      (headers i.succ).prevHash == hashHeader poseidon2Permutation (headers i.castSucc)) &&
    ((List.finRange (n + 1)).all fun i =>
      ((headers i).fsmState == 2 || (headers i).fsmState == 3) &&
        (headers i).withdrawalLocked == 1) &&
    (headers 0).prevHash == rtLast && (headers (Fin.last n)).stateRoot == rtNew

end Leaf

section Aggregator

variable {VerificationKey Proof : Type}
  (verifyHonkProof : VerificationKey → Proof → List Field → Field → Bool)
  (leafVK : VerificationKey) {m : ℕ}

/-- `main` of the aggregator, over `M = m + 1` leaves. -/
def Aggregator.main (rtStart rtEnd : Field) (leafProofs : Fin (m + 1) → Proof)
    (leafRtLast leafRtNew : Fin (m + 1) → Field) (leafKeyHash : Field) : Bool :=
  ((List.finRange (m + 1)).all fun i =>
      verifyHonkProof leafVK (leafProofs i) [leafRtLast i, leafRtNew i] leafKeyHash) &&
    leafRtLast 0 == rtStart &&
    ((List.finRange m).all fun i => leafRtLast i.succ == leafRtNew i.castSucc) &&
    leafRtNew (Fin.last m) == rtEnd

end Aggregator

/-- The leaf verifier accepts, under the fixed key, exactly the public inputs of
satisfiable leaves. -/
structure LeafVerifier (poseidon2Permutation : Sponge → Sponge) (n : ℕ)
    {VerificationKey Proof : Type}
    (verifyHonkProof : VerificationKey → Proof → List Field → Field → Bool)
    (leafVK : VerificationKey) : Prop where
  sound : ∀ proof inputs keyHash, verifyHonkProof leafVK proof inputs keyHash = true →
    ∃ rtLast rtNew, ∃ headers : Fin (n + 1) → Header, inputs = [rtLast, rtNew] ∧
      Leaf.main poseidon2Permutation rtLast rtNew headers = true
  complete : ∃ keyHash, ∀ rtLast rtNew, ∀ headers : Fin (n + 1) → Header,
    Leaf.main poseidon2Permutation rtLast rtNew headers = true →
      ∃ proof, verifyHonkProof leafVK proof [rtLast, rtNew] keyHash = true

/-- A row of `M` segments of `N` headers, each starting at the root the one before it
ended in. -/
structure Segments (hash : Header → Field) (m n : ℕ) (rtStart rtEnd : Field)
    (ws : List (List Header)) : Prop where
  leaves : ws.length = m + 1
  size : ∀ w ∈ ws, w.length = n + 1
  rolling : Rolling hash rtStart rtEnd ws

section Leaves

variable {poseidon2Permutation : Sponge → Sponge} {n : ℕ} {rtLast rtNew : Field}

private theorem isChain_ofFn_iff {hash : Header → Field} (headers : Fin (n + 1) → Header) :
    (List.ofFn headers).IsChain (Linked hash) ↔
      ∀ i : Fin n, (headers i.succ).prevHash = hash (headers i.castSucc) := by
  rw [List.isChain_iff_getElem]
  constructor
  · intro linked i
    have step := linked i.val (by simp)
    rwa [List.getElem_ofFn, List.getElem_ofFn] at step
  · intro linked i inside
    rw [List.length_ofFn] at inside
    rw [List.getElem_ofFn, List.getElem_ofFn]
    exact linked ⟨i, by omega⟩

theorem Leaf.main_iff_phi (headers : Fin (n + 1) → Header) :
    Leaf.main poseidon2Permutation rtLast rtNew headers = true ↔
      PhiRecovery (hashHeader poseidon2Permutation) rtLast rtNew (n + 1) (List.ofFn headers) := by
  have fields : Leaf.main poseidon2Permutation rtLast rtNew headers = true ↔
      (((∀ i : Fin n, (headers i.succ).prevHash =
          hashHeader poseidon2Permutation (headers i.castSucc)) ∧
        ∀ i, ((headers i).fsmState = 2 ∨ (headers i).fsmState = 3) ∧
          (headers i).withdrawalLocked = 1) ∧
        (headers 0).prevHash = rtLast) ∧ (headers (Fin.last n)).stateRoot = rtNew := by
    simp [Leaf.main]
  have first : (List.ofFn headers).head? = some (headers 0) := by
    rw [List.ofFn_succ, List.head?_cons]
  have last : (List.ofFn headers).getLast? = some (headers (Fin.last n)) := by
    rw [List.ofFn_succ', List.concat_eq_append, List.getLast?_concat]
  rw [fields]
  constructor
  · rintro ⟨⟨⟨linked, legal⟩, starts⟩, ends⟩
    refine ⟨List.length_ofFn, (isChain_ofFn_iff headers).mpr linked, ?_, ?_,
      ⟨_, first, starts⟩, ⟨_, last, ends⟩⟩
    · intro h listed
      obtain ⟨i, rfl⟩ := (List.mem_ofFn' headers h).mp listed
      exact (legal i).1
    · intro h listed
      obtain ⟨i, rfl⟩ := (List.mem_ofFn' headers h).mp listed
      exact (legal i).2
  · intro phi
    obtain ⟨h, found, starts⟩ := phi.starts
    obtain ⟨h', found', ends⟩ := phi.ends
    rw [first, Option.some.injEq] at found
    rw [last, Option.some.injEq] at found'
    subst found found'
    have listed : ∀ i, headers i ∈ List.ofFn headers :=
      fun i => (List.mem_ofFn' headers _).mpr ⟨i, rfl⟩
    exact ⟨⟨⟨(isChain_ofFn_iff headers).mp phi.continuity,
      fun i => ⟨phi.policy _ (listed i), phi.breaker _ (listed i)⟩⟩, starts⟩, ends⟩

private theorem Leaf.satisfiable_iff :
    (∃ headers : Fin (n + 1) → Header,
        Leaf.main poseidon2Permutation rtLast rtNew headers = true) ↔
      ∃ w, PhiRecovery (hashHeader poseidon2Permutation) rtLast rtNew (n + 1) w := by
  constructor
  · rintro ⟨headers, holds⟩
    exact ⟨_, (Leaf.main_iff_phi headers).mp holds⟩
  · rintro ⟨w, phi⟩
    have slots : List.ofFn (fun i : Fin (n + 1) => w.get (i.cast phi.length.symm)) = w := by
      rw [← List.ofFn_congr phi.length, List.ofFn_get]
    refine ⟨fun i => w.get (i.cast phi.length.symm), (Leaf.main_iff_phi _).mpr ?_⟩
    rw [slots]
    exact phi

private theorem realHeaders_paddedHeaders {count : UInt32} (fits : count.toNat ≤ nMax)
    {w : List Header} (length : w.length = count.toNat) :
    realHeaders count (paddedHeaders w) = w := by
  apply List.ext_getElem?
  intro i
  by_cases active : i < count.toNat
  · have inside : i < w.length := by omega
    rw [getElem?_realHeaders _ (i := ⟨i, active.trans_le fits⟩) active, paddedHeaders,
      List.getD_eq_getElem?_getD, List.getElem?_eq_getElem inside, Option.getD_some]
  · rw [List.getElem?_eq_none (by rw [length_realHeaders fits]; omega),
      List.getElem?_eq_none (by omega)]

private theorem toNat_count {k : ℕ} (fits : k ≤ nMax) : (UInt32.ofNat k).toNat = k :=
  UInt32.toNat_ofNat_of_lt' (lt_of_le_of_lt fits (by decide))

private theorem deployed_satisfiable_iff (fits : n + 1 ≤ nMax) :
    (∃ headers, main poseidon2Permutation rtLast rtNew (.ofNat (n + 1)) headers = true) ↔
      ∃ w, PhiRecovery (hashHeader poseidon2Permutation) rtLast rtNew (n + 1) w := by
  have count := toNat_count fits
  constructor
  · rintro ⟨headers, holds⟩
    obtain ⟨_, phi⟩ := main_iff_phi.mp holds
    rw [count] at phi
    exact ⟨_, phi⟩
  · rintro ⟨w, phi⟩
    refine ⟨paddedHeaders w, main_iff_phi.mpr ?_⟩
    rw [realHeaders_paddedHeaders (count.trans_le fits) (phi.length.trans count.symm), count]
    exact ⟨⟨Nat.le_add_left 1 n, fits⟩, phi⟩

end Leaves

section Chaining

private theorem met_iff_path (leaf : Field → Field → Prop) {m : ℕ} (rtStart rtEnd : Field) :
    (∃ leafRtLast leafRtNew : Fin (m + 1) → Field,
        (∀ i, leaf (leafRtLast i) (leafRtNew i)) ∧ leafRtLast 0 = rtStart ∧
        (∀ i : Fin m, leafRtLast i.succ = leafRtNew i.castSucc) ∧
        leafRtNew (Fin.last m) = rtEnd) ↔
      ∃ roots : Fin (m + 2) → Field, roots 0 = rtStart ∧ roots (Fin.last (m + 1)) = rtEnd ∧
        ∀ i : Fin (m + 1), leaf (roots i.castSucc) (roots i.succ) := by
  constructor
  · rintro ⟨leafRtLast, leafRtNew, proven, starts, meets, ends⟩
    refine ⟨Fin.cons rtStart leafRtNew, rfl, ends, ?_⟩
    intro i
    have start : Fin.cons (α := fun _ => Field) rtStart leafRtNew i.castSucc = leafRtLast i := by
      cases i using Fin.cases with
      | zero => exact starts.symm
      | succ j => exact (meets j).symm
    rw [start, Fin.cons_succ]
    exact proven i
  · rintro ⟨roots, starts, ends, proven⟩
    exact ⟨fun i => roots i.castSucc, fun i => roots i.succ, proven, starts, fun _ => rfl, ends⟩

private theorem path_iff_segments (hash : Header → Field) (m n : ℕ) (rtStart rtEnd : Field) :
    (∃ roots : Fin (m + 2) → Field, roots 0 = rtStart ∧ roots (Fin.last (m + 1)) = rtEnd ∧
        ∀ i : Fin (m + 1), ∃ w, PhiRecovery hash (roots i.castSucc) (roots i.succ) (n + 1) w) ↔
      ∃ ws, Segments hash m n rtStart rtEnd ws := by
  induction m generalizing rtStart with
  | zero =>
      constructor
      · rintro ⟨roots, rfl, rfl, proven⟩
        obtain ⟨w, phi⟩ := proven 0
        exact ⟨[w], rfl, by simpa using phi.length, .one phi⟩
      · rintro ⟨ws, leaves, size, rolling⟩
        cases rolling with
        | @one _ _ k w phi =>
            have same : k = n + 1 := phi.length.symm.trans (size w (by simp))
            subst same
            refine ⟨Fin.cons rtStart (fun _ => rtEnd), rfl, rfl, ?_⟩
            intro i
            obtain rfl : i = 0 := Fin.ext (by omega)
            exact ⟨w, phi⟩
        | more _ rest =>
            simp [rest.nonempty] at leaves
  | succ m ih =>
      constructor
      · rintro ⟨roots, rfl, rfl, proven⟩
        obtain ⟨w, phi⟩ := proven 0
        obtain ⟨ws, leaves, size, rolling⟩ := (ih (roots 1)).mp
          ⟨Fin.tail roots, rfl, rfl, fun i => proven i.succ⟩
        exact ⟨w :: ws, by rw [List.length_cons, leaves],
          List.forall_mem_cons.mpr ⟨phi.length, size⟩, .more phi rolling⟩
      · rintro ⟨ws, leaves, size, rolling⟩
        cases rolling with
        | one _ => simp at leaves
        | @more _ rtMid _ k w ws phi rest =>
            obtain ⟨here, later⟩ := List.forall_mem_cons.mp size
            have same : k = n + 1 := phi.length.symm.trans here
            subst same
            obtain ⟨roots, starts, ends, proven⟩ := (ih rtMid).mpr
              ⟨ws, by simpa using leaves, later, rest⟩
            refine ⟨Fin.cons rtStart roots, rfl, ends, ?_⟩
            intro i
            cases i using Fin.cases with
            | zero => exact ⟨w, by simpa [starts] using phi⟩
            | succ j => exact proven j

end Chaining

section Aggregate

variable {poseidon2Permutation : Sponge → Sponge} {m n : ℕ} {VerificationKey Proof : Type}
  {verifyHonkProof : VerificationKey → Proof → List Field → Field → Bool}
  {leafVK : VerificationKey} {rtStart rtEnd : Field}

private theorem Aggregator.satisfiable_iff
    (verifier : LeafVerifier poseidon2Permutation n verifyHonkProof leafVK) :
    (∃ leafProofs leafRtLast leafRtNew leafKeyHash, Aggregator.main verifyHonkProof leafVK
        (m := m) rtStart rtEnd leafProofs leafRtLast leafRtNew leafKeyHash = true) ↔
      ∃ leafRtLast leafRtNew : Fin (m + 1) → Field,
        (∀ i, ∃ headers : Fin (n + 1) → Header,
          Leaf.main poseidon2Permutation (leafRtLast i) (leafRtNew i) headers = true) ∧
        leafRtLast 0 = rtStart ∧ (∀ i : Fin m, leafRtLast i.succ = leafRtNew i.castSucc) ∧
        leafRtNew (Fin.last m) = rtEnd := by
  simp only [Aggregator.main, Bool.and_eq_true, List.all_eq_true, List.mem_finRange, true_implies,
    beq_iff_eq]
  constructor
  · rintro ⟨leafProofs, leafRtLast, leafRtNew, leafKeyHash, ⟨⟨verified, starts⟩, meets⟩, ends⟩
    refine ⟨leafRtLast, leafRtNew, ?_, starts, meets, ends⟩
    intro i
    obtain ⟨rtLast, rtNew, headers, inputs, holds⟩ := verifier.sound _ _ _ (verified i)
    obtain ⟨rfl, rfl⟩ : leafRtLast i = rtLast ∧ leafRtNew i = rtNew := by simpa using inputs
    exact ⟨headers, holds⟩
  · rintro ⟨leafRtLast, leafRtNew, satisfied, starts, meets, ends⟩
    obtain ⟨leafKeyHash, provable⟩ := verifier.complete
    have proofs : ∀ i, ∃ proof, verifyHonkProof leafVK proof [leafRtLast i, leafRtNew i]
        leafKeyHash = true := by
      intro i
      obtain ⟨headers, holds⟩ := satisfied i
      exact provable _ _ headers holds
    choose leafProofs verified using proofs
    exact ⟨leafProofs, leafRtLast, leafRtNew, leafKeyHash, ⟨⟨verified, starts⟩, meets⟩, ends⟩

theorem Segments.length_flatten {hash : Header → Field} {ws : List (List Header)}
    (row : Segments hash m n rtStart rtEnd ws) : ws.flatten.length = (m + 1) * (n + 1) := by
  rw [List.length_flatten, List.eq_replicate_of_mem (l := ws.map List.length) (a := n + 1),
    List.length_map, List.sum_replicate_nat, row.leaves]
  intro k listed
  obtain ⟨w, here, rfl⟩ := List.mem_map.mp listed
  exact row.size w here

private theorem Segments.single_proof_iff (fits : (m + 1) * (n + 1) ≤ nMax)
    {ws : List (List Header)}
    (row : Segments (hashHeader poseidon2Permutation) m n rtStart rtEnd ws) :
    main poseidon2Permutation rtStart rtEnd (.ofNat ((m + 1) * (n + 1)))
        (paddedHeaders ws.flatten) = true ↔
      ∀ w ∈ ws.dropLast, ∀ h, w.getLast? = some h →
        hashHeader poseidon2Permutation h = h.stateRoot := by
  have count := toNat_count fits
  have total := row.length_flatten
  have positive : 1 ≤ (m + 1) * (n + 1) := Nat.mul_pos m.succ_pos n.succ_pos
  rw [main_iff_phi, realHeaders_paddedHeaders (count.trans_le fits) (total.trans count.symm),
    count, ← row.rolling.composed.whole, ← List.length_flatten, total]
  exact and_iff_right ⟨positive, fits⟩

end Aggregate

/-- What an aggregate proves. It exists exactly when its two roots are joined by a row of
`M` segments of `N` headers, and exactly when the deployed circuit has `M` proofs of `N`
headers each that meet in the same way. It is not one proof over all the headers: the
deployed circuit takes them in one piece exactly where every root between two leaves is
the hash of the header that ends there. -/
theorem aggregate_proves_segments {poseidon2Permutation : Sponge → Sponge} {m n : ℕ}
    {VerificationKey Proof : Type}
    {verifyHonkProof : VerificationKey → Proof → List Field → Field → Bool}
    {leafVK : VerificationKey}
    (verifier : LeafVerifier poseidon2Permutation n verifyHonkProof leafVK)
    (fits : (m + 1) * (n + 1) ≤ nMax) (rtStart rtEnd : Field) :
    ((∃ leafProofs leafRtLast leafRtNew leafKeyHash, Aggregator.main verifyHonkProof leafVK
        (m := m) rtStart rtEnd leafProofs leafRtLast leafRtNew leafKeyHash = true) ↔
      ∃ ws, Segments (hashHeader poseidon2Permutation) m n rtStart rtEnd ws) ∧
    ((∃ leafProofs leafRtLast leafRtNew leafKeyHash, Aggregator.main verifyHonkProof leafVK
        (m := m) rtStart rtEnd leafProofs leafRtLast leafRtNew leafKeyHash = true) ↔
      ∃ roots : Fin (m + 2) → Field, roots 0 = rtStart ∧ roots (Fin.last (m + 1)) = rtEnd ∧
        ∀ i : Fin (m + 1), ∃ headers, main poseidon2Permutation (roots i.castSucc)
          (roots i.succ) (.ofNat (n + 1)) headers = true) ∧
    ∀ ws, Segments (hashHeader poseidon2Permutation) m n rtStart rtEnd ws →
      (main poseidon2Permutation rtStart rtEnd (.ofNat ((m + 1) * (n + 1)))
          (paddedHeaders ws.flatten) = true ↔
        ∀ w ∈ ws.dropLast, ∀ h, w.getLast? = some h →
          hashHeader poseidon2Permutation h = h.stateRoot) := by
  have leafFits : n + 1 ≤ nMax := (Nat.le_mul_of_pos_left _ m.succ_pos).trans fits
  have path := (Aggregator.satisfiable_iff (m := m) verifier).trans (met_iff_path
    (fun rtLast rtNew => ∃ headers : Fin (n + 1) → Header,
      Leaf.main poseidon2Permutation rtLast rtNew headers = true) rtStart rtEnd)
  refine ⟨?_, ?_, fun ws row => row.single_proof_iff fits⟩
  · simp only [Leaf.satisfiable_iff] at path
    exact path.trans (path_iff_segments _ m n rtStart rtEnd)
  · simp only [Leaf.satisfiable_iff, ← deployed_satisfiable_iff leafFits] at path
    exact path

section Sample

def openVerifier (poseidon2Permutation : Sponge → Sponge) (_leafVK : Unit)
    (proof : Fin 4 → Header) (inputs : List Field) (_keyHash : Field) : Bool :=
  match inputs with
  | [rtLast, rtNew] => Leaf.main poseidon2Permutation rtLast rtNew proof
  | [] | [_] | _ :: _ :: _ :: _ => false

private theorem openVerifier_leafVerifier (poseidon2Permutation : Sponge → Sponge) :
    LeafVerifier poseidon2Permutation 3 (openVerifier poseidon2Permutation) () where
  sound := by
    intro proof inputs keyHash verified
    match inputs with
    | [rtLast, rtNew] => exact ⟨rtLast, rtNew, proof, rfl, verified⟩
    | [] | [_] | _ :: _ :: _ :: _ => cases verified
  complete := ⟨0, fun _ _ headers holds => ⟨headers, holds⟩⟩

/-- Four leaves of four headers, under a permutation that is constantly zero. -/
theorem aggregate_proves_segments_fourLeaves :
    (∃ ws, Segments (hashHeader (fun _ => ⟨0, 0, 0, 0⟩)) 3 3 0 0 ws) ∧
      ∃ roots : Fin 5 → Field, roots 0 = 0 ∧ roots (Fin.last 4) = 0 ∧
        ∀ i : Fin 4, ∃ headers, main (fun _ => ⟨0, 0, 0, 0⟩) (roots i.castSucc) (roots i.succ)
          4 headers = true := by
  obtain ⟨segments, deployed, _⟩ := aggregate_proves_segments (m := 3)
    (openVerifier_leafVerifier (fun _ => ⟨0, 0, 0, 0⟩)) (by decide) 0 0
  have aggregated : ∃ leafProofs leafRtLast leafRtNew leafKeyHash,
      Aggregator.main (openVerifier (fun _ => ⟨0, 0, 0, 0⟩)) () (m := 3) 0 0 leafProofs leafRtLast
        leafRtNew leafKeyHash = true :=
    ⟨fun _ _ => ⟨0, 2, 1, 0⟩, fun _ => 0, fun _ => 0, 0, by decide +kernel⟩
  exact ⟨segments.mp aggregated, deployed.mp aggregated⟩

end Sample

end Engram.Circuit
