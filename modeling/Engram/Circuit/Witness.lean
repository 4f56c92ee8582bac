import Engram.Circuit.Reanchoring

/-!
The witness-linking circuit and the padding of the prover script. Every linked
witness of state codes and lock flags the main circuit admits satisfies it.
-/

set_option autoImplicit false
set_option relaxedAutoImplicit false

namespace Engram.Circuit

open Engram.Types

/-- One header as the prover script passes it to the linking circuit. -/
structure RawHeader where
  fsmState : Field
  withdrawalLocked : Field
  stateRoot : Field
  deriving DecidableEq

def zeroRawHeader : RawHeader := ⟨0, 0, 0⟩

def zeroHeader : Header := ⟨0, 0, 0, 0⟩

section Linking

variable (poseidon2Permutation : Sponge → Sponge)

/-- The loop of the linking circuit from slot `i` on: the headers it prints. -/
def linkFrom (count : ℕ) : ℕ → Field → List RawHeader → List Header
  | _, _, [] => []
  | i, prevHash, raw :: rest =>
      if i < count then
        let h : Header := ⟨prevHash, raw.fsmState, raw.withdrawalLocked, raw.stateRoot⟩
        h :: linkFrom count (i + 1) (hashHeader poseidon2Permutation h) rest
      else linkFrom count (i + 1) prevHash rest

/-- `main` of the linking circuit on the slots the script fills. -/
def linkedChain (rtLast : Field) (count : ℕ) (raws : List RawHeader) : List Header :=
  linkFrom poseidon2Permutation count 0 rtLast raws

/-- A list of headers as the slots of the main circuit, zeros behind it. -/
def paddedHeaders (linked : List Header) : Headers := fun i => linked.getD i.val zeroHeader

theorem linkFrom_getElem? (prevHash : Field) {count i : ℕ} {raws : List RawHeader} {k : ℕ}
    {raw : RawHeader} (listed : raws[k]? = some raw) (active : i + k < count) :
    ∃ h, (linkFrom poseidon2Permutation count i prevHash raws)[k]? = some h ∧
      h.fsmState = raw.fsmState ∧ h.withdrawalLocked = raw.withdrawalLocked ∧
      h.stateRoot = raw.stateRoot ∧ (k = 0 → h.prevHash = prevHash) ∧
      ∀ j, k = j + 1 → ∃ h', (linkFrom poseidon2Permutation count i prevHash raws)[j]? = some h' ∧
        h.prevHash = hashHeader poseidon2Permutation h' := by
  induction raws generalizing i k prevHash with
  | nil => simp at listed
  | cons first rest ih =>
      have here : i < count := by omega
      simp only [linkFrom, if_pos here]
      cases k with
      | zero =>
          obtain rfl := Option.some.inj listed
          exact ⟨_, rfl, rfl, rfl, rfl, fun _ => rfl, fun j impossible => by omega⟩
      | succ k =>
          obtain ⟨h, printed, state, lock, root, start, link⟩ :=
            ih (hashHeader poseidon2Permutation
              ⟨prevHash, first.fsmState, first.withdrawalLocked, first.stateRoot⟩)
              (i := i + 1) (k := k) listed (by omega)
          refine ⟨h, printed, state, lock, root, fun impossible => by omega, ?_⟩
          intro j same
          obtain rfl : k = j := by omega
          cases k with
          | zero => exact ⟨_, rfl, start rfl⟩
          | succ k => exact link k rfl

theorem Main.linked (rtLast : Field) {count : UInt32} {raws : List RawHeader} {last : RawHeader}
    (nonempty : 1 ≤ count.toNat) (fits : count.toNat ≤ nMax)
    (admitted : ∀ k < count.toNat, ∃ raw, raws[k]? = some raw ∧
      (raw.fsmState = 2 ∨ raw.fsmState = 3) ∧ raw.withdrawalLocked = 1)
    (final : raws[count.toNat - 1]? = some last) :
    Main poseidon2Permutation rtLast last.stateRoot count
      (paddedHeaders (linkedChain poseidon2Permutation rtLast count.toNat raws)) := by
  have printed : ∀ i : Fin 256, ∀ h,
      (linkedChain poseidon2Permutation rtLast count.toNat raws)[i.val]? = some h →
      paddedHeaders (linkedChain poseidon2Permutation rtLast count.toNat raws) i = h := by
    intro i h found
    rw [paddedHeaders, List.getD_eq_getElem?_getD, found, Option.getD_some]
  have chain : ∀ {k : ℕ} {raw : RawHeader}, raws[k]? = some raw → 0 + k < count.toNat → _ :=
    fun {_ _} => linkFrom_getElem? poseidon2Permutation rtLast
  refine ⟨nonempty, fits, ?_, ?_, ?_, ?_, ?_⟩
  · intro i j next active
    obtain ⟨raw, listed, _⟩ := admitted i.val active
    obtain ⟨h, found, _, _, _, _, link⟩ := chain listed (by omega)
    obtain ⟨h', found', linked⟩ := link j.val next
    rw [printed i h found, printed j h' found', linked]
  · intro i active
    obtain ⟨raw, listed, state, _⟩ := admitted i.val active
    obtain ⟨h, found, same, _⟩ := chain listed (by omega)
    rw [printed i h found, same]
    exact state
  · intro i active
    obtain ⟨raw, listed, _, lock⟩ := admitted i.val active
    obtain ⟨h, found, _, same, _⟩ := chain listed (by omega)
    rw [printed i h found, same, lock]
  · obtain ⟨raw, listed, _⟩ := admitted 0 (by omega)
    obtain ⟨h, found, _, _, _, start, _⟩ := chain listed (by omega)
    rw [printed 0 h found, start rfl]
  · intro i isLast
    have index : i.val = count.toNat - 1 := by omega
    obtain ⟨h, found, _, _, root, _⟩ := chain final (by omega)
    rw [← index] at found
    rw [printed i h found, root]

end Linking

end Engram.Circuit
