import Engram.Circuit.Reanchoring
import Engram.Keeper.MsgServer
import Mathlib.Data.List.Chain

/-!
Rolling proofs. A segment starts at the state root the segment before it ended in,
while inside a segment every header starts at the hash of the header before it.
What a sequence of segments proves about the whole interval is decided by how the
two bindings meet.
-/

set_option autoImplicit false
set_option relaxedAutoImplicit false

namespace Engram.Circuit

open Engram.Types Engram.Keeper Engram.Library

section Composition

variable (hash : Header → Field)

/-- The constraints of `main` with the header hash left open. -/
structure Constraints (rtLast rtNew : Field) (count : UInt32) (headers : Headers) : Prop where
  nonempty : 1 ≤ count.toNat
  fits : count.toNat ≤ nMax
  continuity : ∀ i j : Fin 256, i.val = j.val + 1 → i.val < count.toNat →
    (headers i).prevHash = hash (headers j)
  policy : ∀ i : Fin 256, i.val < count.toNat →
    (headers i).fsmState = 2 ∨ (headers i).fsmState = 3
  breaker : ∀ i : Fin 256, i.val < count.toNat → (headers i).withdrawalLocked = 1
  starts : (headers 0).prevHash = rtLast
  ends : ∀ i : Fin 256, i.val + 1 = count.toNat → (headers i).stateRoot = rtNew

/-- The real headers of a witness, padding left out. -/
def realHeaders (count : UInt32) (headers : Headers) : List Header :=
  (List.ofFn headers).take count.toNat

/-- A header starts at the hash of the one before it. -/
def Linked (h h' : Header) : Prop := h'.prevHash = hash h

/-- `Φ_Recovery` on a list of headers of any length. -/
structure PhiRecovery (rtLast rtNew : Field) (n : ℕ) (w : List Header) : Prop where
  length : w.length = n
  continuity : w.IsChain (Linked hash)
  policy : ∀ h ∈ w, h.fsmState = 2 ∨ h.fsmState = 3
  breaker : ∀ h ∈ w, h.withdrawalLocked = 1
  starts : ∃ h, w.head? = some h ∧ h.prevHash = rtLast
  ends : ∃ h, w.getLast? = some h ∧ h.stateRoot = rtNew

/-- Segments each of which starts at the root the one before it ended in. -/
inductive Rolling : Field → Field → List (List Header) → Prop
  | one {rtLast rtNew : Field} {n : ℕ} {w : List Header} :
      PhiRecovery hash rtLast rtNew n w → Rolling rtLast rtNew [w]
  | more {rtLast rtMid rtNew : Field} {n : ℕ} {w : List Header} {ws : List (List Header)} :
      PhiRecovery hash rtLast rtMid n w → Rolling rtMid rtNew ws →
      Rolling rtLast rtNew (w :: ws)

/-- What a sequence of segments says about their concatenation. At a boundary the
first header starts at the state root of the header before it. -/
structure Composed (rtLast rtNew : Field) (ws : List (List Header)) : Prop where
  policy : ∀ h ∈ ws.flatten, h.fsmState = 2 ∨ h.fsmState = 3
  breaker : ∀ h ∈ ws.flatten, h.withdrawalLocked = 1
  starts : ∃ h, ws.flatten.head? = some h ∧ h.prevHash = rtLast
  ends : ∃ h, ws.flatten.getLast? = some h ∧ h.stateRoot = rtNew
  inner : ∀ w ∈ ws, w.IsChain (Linked hash)
  boundary : ws.IsChain (fun w w' => ∃ h h', w.getLast? = some h ∧ w'.head? = some h' ∧
    h'.prevHash = h.stateRoot)
  whole : PhiRecovery hash rtLast rtNew (ws.map List.length).sum ws.flatten ↔
    ∀ w ∈ ws.dropLast, ∀ h, w.getLast? = some h → hash h = h.stateRoot

variable {hash}

theorem Main.constraints {poseidon2Permutation : Sponge → Sponge} {rtLast rtNew : Field}
    {count : UInt32} {headers : Headers}
    (satisfied : Main poseidon2Permutation rtLast rtNew count headers) :
    Constraints (hashHeader poseidon2Permutation) rtLast rtNew count headers :=
  ⟨satisfied.nonempty, satisfied.fits, satisfied.continuity, satisfied.policy,
    satisfied.breaker, satisfied.starts, satisfied.ends⟩

theorem length_realHeaders {count : UInt32} (fits : count.toNat ≤ nMax) (headers : Headers) :
    (realHeaders count headers).length = count.toNat := by
  simp only [realHeaders, List.length_take, List.length_ofFn]
  exact Nat.min_eq_left fits

theorem getElem?_realHeaders {count : UInt32} (headers : Headers) {i : Fin 256}
    (active : i.val < count.toNat) : (realHeaders count headers)[i.val]? = some (headers i) := by
  rw [realHeaders, List.getElem?_take_of_lt active, List.getElem?_ofFn, dif_pos i.isLt]

private theorem mem_realHeaders {count : UInt32} (fits : count.toNat ≤ nMax) {headers : Headers}
    {h : Header} :
    h ∈ realHeaders count headers ↔ ∃ i : Fin 256, i.val < count.toNat ∧ headers i = h := by
  constructor
  · intro listed
    obtain ⟨i, found⟩ := List.mem_iff_getElem?.mp listed
    have active : i < count.toNat := by
      rw [← length_realHeaders fits headers]
      exact (List.getElem?_eq_some_iff.mp found).1
    have slot := getElem?_realHeaders headers (i := ⟨i, active.trans_le fits⟩) active
    exact ⟨⟨i, active.trans_le fits⟩, active, Option.some.inj (slot.symm.trans found)⟩
  · rintro ⟨i, active, rfl⟩
    exact List.mem_of_getElem? (getElem?_realHeaders headers active)

private theorem head?_realHeaders {count : UInt32} (nonempty : 1 ≤ count.toNat)
    (headers : Headers) : (realHeaders count headers).head? = some (headers 0) := by
  rw [List.head?_eq_getElem?]
  exact getElem?_realHeaders headers (i := 0) nonempty

private theorem getLast?_realHeaders {count : UInt32} (fits : count.toNat ≤ nMax)
    (headers : Headers) {last : Fin 256} (isLast : last.val + 1 = count.toNat) :
    (realHeaders count headers).getLast? = some (headers last) := by
  rw [List.getLast?_eq_getElem?, length_realHeaders fits, ← isLast, Nat.add_sub_cancel]
  exact getElem?_realHeaders headers (by omega)

private theorem isChain_realHeaders {count : UInt32} (fits : count.toNat ≤ nMax) (headers : Headers)
    (R : Header → Header → Prop) :
    (realHeaders count headers).IsChain R ↔
      ∀ i j : Fin 256, i.val = j.val + 1 → i.val < count.toNat → R (headers j) (headers i) := by
  have fits' : count.toNat ≤ 256 := fits
  have slot : ∀ (i : Fin 256) (lt : i.val < (realHeaders count headers).length),
      (realHeaders count headers)[i.val] = headers i := by
    intro i lt
    have found := getElem?_realHeaders headers (length_realHeaders fits headers ▸ lt)
    rw [List.getElem?_eq_getElem lt] at found
    exact Option.some.inj found
  rw [List.isChain_iff_getElem]
  constructor
  · intro chain i j next active
    have linked := chain j.val (by rw [length_realHeaders fits]; omega)
    rw [slot j] at linked
    have successor := slot ⟨j.val + 1, by omega⟩ (by
      change j.val + 1 < _
      rw [length_realHeaders fits]
      omega)
    rw [successor] at linked
    have same : (⟨j.val + 1, by omega⟩ : Fin 256) = i := Fin.ext next.symm
    rwa [same] at linked
  · intro linked i lt
    have bound := lt
    rw [length_realHeaders fits] at bound
    rw [slot ⟨i, by omega⟩, slot ⟨i + 1, by omega⟩]
    exact linked _ _ rfl bound

theorem Constraints.phi {rtLast rtNew : Field} {count : UInt32} {headers : Headers}
    (satisfied : Constraints hash rtLast rtNew count headers) :
    PhiRecovery hash rtLast rtNew count.toNat (realHeaders count headers) := by
  have nonempty := satisfied.nonempty
  have fits : count.toNat ≤ 256 := satisfied.fits
  refine ⟨length_realHeaders fits headers, ?_, ?_, ?_, ?_, ?_⟩
  · exact (isChain_realHeaders fits headers _).mpr satisfied.continuity
  · intro h listed
    obtain ⟨i, active, rfl⟩ := (mem_realHeaders fits).mp listed
    exact satisfied.policy i active
  · intro h listed
    obtain ⟨i, active, rfl⟩ := (mem_realHeaders fits).mp listed
    exact satisfied.breaker i active
  · exact ⟨headers 0, head?_realHeaders nonempty headers, satisfied.starts⟩
  · have isLast : (⟨count.toNat - 1, by omega⟩ : Fin 256).val + 1 = count.toNat := by
      change count.toNat - 1 + 1 = count.toNat
      omega
    exact ⟨_, getLast?_realHeaders fits headers isLast, satisfied.ends _ isLast⟩

/-- A satisfying list in the first slots is a satisfying witness, whatever fills the
rest. -/
theorem PhiRecovery.constraints {rtLast rtNew : Field} {count : UInt32} {headers : Headers}
    (nonempty : 1 ≤ count.toNat) (fits : count.toNat ≤ nMax)
    (phi : PhiRecovery hash rtLast rtNew count.toNat (realHeaders count headers)) :
    Constraints hash rtLast rtNew count headers := by
  refine ⟨nonempty, fits, ?_, ?_, ?_, ?_, ?_⟩
  · exact (isChain_realHeaders fits headers _).mp phi.continuity
  · intro i active
    exact phi.policy _ ((mem_realHeaders fits).mpr ⟨i, active, rfl⟩)
  · intro i active
    exact phi.breaker _ ((mem_realHeaders fits).mpr ⟨i, active, rfl⟩)
  · obtain ⟨h, found, starts⟩ := phi.starts
    rw [head?_realHeaders nonempty, Option.some.injEq] at found
    rwa [found]
  · intro i isLast
    obtain ⟨h, found, ends⟩ := phi.ends
    rw [getLast?_realHeaders fits headers isLast, Option.some.injEq] at found
    rwa [found]

section Rolling

variable {rtLast rtNew : Field} {ws : List (List Header)}

theorem Rolling.nonempty (rolling : Rolling hash rtLast rtNew ws) : ws ≠ [] := by
  cases rolling <;> simp

theorem Rolling.frame (rolling : Rolling hash rtLast rtNew ws) :
    (∀ h ∈ ws.flatten, (h.fsmState = 2 ∨ h.fsmState = 3) ∧ h.withdrawalLocked = 1) ∧
      (∃ h, ws.flatten.head? = some h ∧ h.prevHash = rtLast) ∧
      (∃ h, ws.flatten.getLast? = some h ∧ h.stateRoot = rtNew) ∧
      (∀ w ∈ ws, w.IsChain (Linked hash)) ∧
      ∃ w rest h, ws = w :: rest ∧ w.head? = some h ∧ h.prevHash = rtLast := by
  induction rolling with
  | @one rtLast rtNew n w phi =>
      obtain ⟨h, first, start⟩ := phi.starts
      refine ⟨?_, ?_, ?_, ?_, w, [], h, rfl, first, start⟩
      · intro h listed
        rw [List.flatten_singleton] at listed
        exact ⟨phi.policy h listed, phi.breaker h listed⟩
      · rw [List.flatten_singleton]
        exact phi.starts
      · rw [List.flatten_singleton]
        exact phi.ends
      · intro w' listed
        rw [List.mem_singleton.mp listed]
        exact phi.continuity
  | @more rtLast rtMid rtNew n w ws phi _ ih =>
      obtain ⟨fields, _, ⟨last, final, root⟩, chains, _⟩ := ih
      obtain ⟨h, first, start⟩ := phi.starts
      refine ⟨?_, ⟨h, ?_, start⟩, ⟨last, ?_, root⟩, ?_, w, ws, h, rfl, first, start⟩
      · intro h listed
        rw [List.flatten_cons, List.mem_append] at listed
        rcases listed with here | there
        · exact ⟨phi.policy h here, phi.breaker h here⟩
        · exact fields h there
      · rw [List.flatten_cons, List.head?_append, first]
        rfl
      · rw [List.flatten_cons, List.getLast?_append, final]
        rfl
      · intro w' listed
        rcases List.mem_cons.mp listed with rfl | later
        · exact phi.continuity
        · exact chains w' later

private theorem Rolling.boundary (rolling : Rolling hash rtLast rtNew ws) :
    ws.IsChain (fun w w' => ∃ h h', w.getLast? = some h ∧ w'.head? = some h' ∧
      h'.prevHash = h.stateRoot) := by
  induction rolling with
  | one _ => exact .singleton _
  | more phi rest ih =>
      obtain ⟨h, final, root⟩ := phi.ends
      obtain ⟨_, _, _, _, w', tail, h', rfl, first, start⟩ := rest.frame
      exact ih.cons_cons ⟨h, h', final, first, start.trans root.symm⟩

private theorem Rolling.continuity_iff (rolling : Rolling hash rtLast rtNew ws) :
    ws.flatten.IsChain (Linked hash) ↔
      ∀ w ∈ ws.dropLast, ∀ h, w.getLast? = some h → hash h = h.stateRoot := by
  induction rolling with
  | one phi => simp [phi.continuity]
  | @more rtLast rtMid rtNew n w ws phi rest ih =>
      obtain ⟨last, final, root⟩ := phi.ends
      obtain ⟨_, ⟨next, first, start⟩, _⟩ := rest.frame
      rw [List.dropLast_cons_of_ne_nil rest.nonempty, List.forall_mem_cons, List.flatten_cons,
        List.isChain_append, ih, final, first]
      have met : Linked hash last next ↔ hash last = last.stateRoot := by
        rw [Linked, start, root]
        exact eq_comm
      constructor
      · rintro ⟨_, inner, cross⟩
        refine ⟨?_, inner⟩
        rintro h same
        obtain rfl := Option.some.inj same
        exact met.mp (cross _ rfl _ rfl)
      · rintro ⟨bound, inner⟩
        refine ⟨phi.continuity, inner, ?_⟩
        rintro h same h' same'
        obtain rfl := Option.some.inj same
        obtain rfl := Option.some.inj same'
        exact met.mpr (bound _ rfl)

theorem Rolling.composed (rolling : Rolling hash rtLast rtNew ws) :
    Composed hash rtLast rtNew ws := by
  obtain ⟨fields, starts, ends, inner, _⟩ := rolling.frame
  refine ⟨fun h listed => (fields h listed).1, fun h listed => (fields h listed).2, starts, ends,
    inner, rolling.boundary, ?_⟩
  rw [← rolling.continuity_iff]
  constructor
  · intro phi
    exact phi.continuity
  · intro linked
    exact ⟨List.length_flatten, linked, fun h listed => (fields h listed).1,
      fun h listed => (fields h listed).2, starts, ends⟩

end Rolling

end Composition

/-- A sequence of accepted calls. Between two calls anything but the tracked root
may change. -/
inductive AcceptedCalls (verifyZKProof : Bytes → Bytes → Bool) :
    Store → List SubmitRecoveryProof → Store → Prop
  | one {st st' : Store} {msg : SubmitRecoveryProof} :
      submitRecoveryProof verifyZKProof st msg = .ok st' → AcceptedCalls verifyZKProof st [msg] st'
  | more {st st' between final : Store} {msg : SubmitRecoveryProof}
      {msgs : List SubmitRecoveryProof} :
      submitRecoveryProof verifyZKProof st msg = .ok st' →
      between.lastAnchoredRoot = st'.lastAnchoredRoot →
      AcceptedCalls verifyZKProof between msgs final →
      AcceptedCalls verifyZKProof st (msg :: msgs) final

private theorem fillBytes_val_inj {a b : Field} (same : fillBytes a.val = fillBytes b.val) :
    a = b := by
  apply Fin.ext
  rw [← bigEndian_fillBytes a.isLt, ← bigEndian_fillBytes b.isLt, same]

private theorem accepted_segment {poseidon2Permutation : Sponge → Sponge}
    {verifyZKProof : Bytes → Bytes → Bool} (sound : Sound poseidon2Permutation verifyZKProof)
    {st st' : Store} {msg : SubmitRecoveryProof}
    (accepted : submitRecoveryProof verifyZKProof st msg = .ok st') :
    ∃ rtLast rtNew n w, st.lastAnchoredRoot = some (fillBytes rtLast.val) ∧
      st'.lastAnchoredRoot = some (fillBytes rtNew.val) ∧
      PhiRecovery (hashHeader poseidon2Permutation) rtLast rtNew n w := by
  obtain ⟨verified, _, anchored, _, _, _, rfl⟩ := submitRecoveryProof_cases accepted
  obtain ⟨rtLast, rtNew, count, headers, encoded, satisfied⟩ := sound _ _ verified
  obtain ⟨_, last, new⟩ := publicInputs_slices rtLast rtNew count
  rw [encoded] at anchored
  refine ⟨rtLast, rtNew, _, _, by rw [anchored, last], ?_, satisfied.constraints.phi⟩
  simp only [encoded, new]

private theorem accepted_rolling {poseidon2Permutation : Sponge → Sponge}
    {verifyZKProof : Bytes → Bytes → Bool} (sound : Sound poseidon2Permutation verifyZKProof)
    {st final : Store} {msgs : List SubmitRecoveryProof}
    (calls : AcceptedCalls verifyZKProof st msgs final) :
    ∃ rtLast rtNew ws, st.lastAnchoredRoot = some (fillBytes rtLast.val) ∧
      final.lastAnchoredRoot = some (fillBytes rtNew.val) ∧ ws.length = msgs.length ∧
      Rolling (hashHeader poseidon2Permutation) rtLast rtNew ws := by
  induction calls with
  | one accepted =>
      obtain ⟨rtLast, rtNew, n, w, last, new, phi⟩ := accepted_segment sound accepted
      exact ⟨rtLast, rtNew, [w], last, new, rfl, .one phi⟩
  | more accepted kept _ ih =>
      obtain ⟨rtLast, rtMid, n, w, last, mid, phi⟩ := accepted_segment sound accepted
      obtain ⟨rtMid', rtNew, ws, mid', new, length, rolling⟩ := ih
      rw [kept, mid] at mid'
      obtain rfl := fillBytes_val_inj (Option.some.inj mid')
      exact ⟨rtLast, rtNew, w :: ws, last, new, by simp [length], .more phi rolling⟩

/-- Rolling proofs compose up to the boundaries: two segments over one root, and
any sequence of accepted calls under a sound verifier, satisfy every condition of
`Φ_Recovery` on their concatenation but for continuity at a boundary, which holds
exactly where the boundary root is the hash of the header that ends there. -/
theorem rolling_proofs_compose :
    (∀ (hash : Header → Field) (rt0 rt1 rt2 : Field) (count1 count2 : UInt32)
        (headers1 headers2 : Headers), Constraints hash rt0 rt1 count1 headers1 →
        Constraints hash rt1 rt2 count2 headers2 →
        Composed hash rt0 rt2 [realHeaders count1 headers1, realHeaders count2 headers2]) ∧
      ∀ (poseidon2Permutation : Sponge → Sponge) (verifyZKProof : Bytes → Bytes → Bool)
        (st final : Store) (msgs : List SubmitRecoveryProof),
        Sound poseidon2Permutation verifyZKProof → AcceptedCalls verifyZKProof st msgs final →
        ∃ rtLast rtNew ws, st.lastAnchoredRoot = some (fillBytes rtLast.val) ∧
          final.lastAnchoredRoot = some (fillBytes rtNew.val) ∧ ws.length = msgs.length ∧
          Composed (hashHeader poseidon2Permutation) rtLast rtNew ws := by
  refine ⟨?_, ?_⟩
  · intro hash rt0 rt1 rt2 count1 count2 headers1 headers2 first second
    exact (Rolling.more first.phi (.one second.phi)).composed
  · intro poseidon2Permutation verifyZKProof st final msgs sound calls
    obtain ⟨rtLast, rtNew, ws, last, new, length, rolling⟩ := accepted_rolling sound calls
    exact ⟨rtLast, rtNew, ws, last, new, length, rolling.composed⟩

private theorem realHeaders_one (headers : Headers) : realHeaders 1 headers = [headers 0] := by
  rw [realHeaders, List.ofFn_succ]
  rfl

/-- Two one-header segments over one root whose concatenation is not linked. -/
theorem rolling_boundary_unlinked :
    ∃ (hash : Header → Field) (rt0 rt1 rt2 : Field) (count1 count2 : UInt32)
      (headers1 headers2 : Headers), Constraints hash rt0 rt1 count1 headers1 ∧
      Constraints hash rt1 rt2 count2 headers2 ∧
      ¬ PhiRecovery hash rt0 rt2 (count1.toNat + count2.toNat)
        (realHeaders count1 headers1 ++ realHeaders count2 headers2) := by
  refine ⟨hashHeader id, 1, 1, 2, 1, 1, _, _, (Main.single 1 1).constraints,
    (Main.single 1 2).constraints, ?_⟩
  intro phi
  rw [realHeaders_one, realHeaders_one] at phi
  have linked : (1 : Field) = hashHeader id ⟨1, 2, 1, 1⟩ :=
    (List.isChain_append.mp phi.continuity).2.2 _ rfl _ rfl
  exact absurd linked (by decide +kernel)

section TwoCalls

def twoHeaderStore : Store where
  lastAnchoredRoot := some (fillBytes 1)
  headerHistory := (OrderedMap.empty.set 5 ⟨.sovereign, true, fillBytes 2⟩).set 6
    ⟨.recovering, true, fillBytes 3⟩

def firstCall : SubmitRecoveryProof := ⟨[], publicInputs 1 2 1, 0⟩

def secondCall : SubmitRecoveryProof := ⟨[], publicInputs 2 3 1, 0⟩

def twoCallVerifier (_proof inputs : Bytes) : Bool :=
  inputs == publicInputs 1 2 1 || inputs == publicInputs 2 3 1

private theorem twoCallVerifier_sound (poseidon2Permutation : Sponge → Sponge) :
    Sound poseidon2Permutation twoCallVerifier := by
  intro proof inputs verified
  rcases Bool.or_eq_true _ _ ▸ verified with first | second
  · exact ⟨1, 2, 1, _, beq_iff_eq.mp first, Main.single 1 2⟩
  · exact ⟨2, 3, 1, _, beq_iff_eq.mp second, Main.single 2 3⟩

private theorem twoCalls_accepted :
    ∃ final, AcceptedCalls twoCallVerifier twoHeaderStore [firstCall, secondCall] final := by
  have outcome : (submitRecoveryProof twoCallVerifier twoHeaderStore firstCall).toOption.any
      (fun st => (submitRecoveryProof twoCallVerifier st secondCall).toOption.isSome) = true := by
    decide +kernel
  cases first : submitRecoveryProof twoCallVerifier twoHeaderStore firstCall with
  | error _ =>
      rw [first] at outcome
      cases outcome
  | ok st =>
      rw [first] at outcome
      cases second : submitRecoveryProof twoCallVerifier st secondCall with
      | error _ => simp [second, Except.toOption] at outcome
      | ok final => exact ⟨final, .more first rfl (.one second)⟩

/-- Two segments over root 1, and two accepted calls, composed. -/
theorem rolling_proofs_compose_twoCalls :
    Composed (hashHeader id) 1 2
        [realHeaders 1 (fun _ => ⟨1, 2, 1, 1⟩), realHeaders 1 (fun _ => ⟨1, 2, 1, 2⟩)] ∧
      ∃ final rtLast rtNew ws,
        AcceptedCalls twoCallVerifier twoHeaderStore [firstCall, secondCall] final ∧
        ws.length = 2 ∧ Composed (hashHeader id) rtLast rtNew ws := by
  obtain ⟨segments, sequences⟩ := rolling_proofs_compose
  refine ⟨segments (hashHeader id) 1 1 2 1 1 _ _ (Main.single 1 1).constraints
    (Main.single 1 2).constraints, ?_⟩
  obtain ⟨final, calls⟩ := twoCalls_accepted
  obtain ⟨rtLast, rtNew, ws, _, _, length, composed⟩ :=
    sequences id twoCallVerifier twoHeaderStore final _ (twoCallVerifier_sound id) calls
  exact ⟨final, rtLast, rtNew, ws, calls, length, composed⟩

end TwoCalls

end Engram.Circuit
