import Engram.Circuit.RollingProofs

/-!
What the circuit decides. The assertions of `main` run over all 256 slots, each
behind its own gate; together they hold exactly of the witnesses whose real headers
satisfy `Φ_Recovery`.
-/

set_option autoImplicit false
set_option relaxedAutoImplicit false

namespace Engram.Circuit

section Assertions

variable (poseidon2Permutation : Sponge → Sponge)

/-- (a): slot `i + 1` starts at the hash of slot `i`. -/
def continuityHolds (count : UInt32) (headers : Headers) : Bool :=
  (List.finRange 255).all fun i =>
    let active := decide (i.val + 1 < count.toNat)
    !active || (headers i.succ).prevHash == hashHeader poseidon2Permutation (headers i.castSucc)

/-- (b) and (c), in one loop as in the source. -/
def legalityHolds (count : UInt32) (headers : Headers) : Bool :=
  (List.finRange 256).all fun i =>
    let active := decide (i.val < count.toNat)
    (!active || ((headers i).fsmState == 2 || (headers i).fsmState == 3)) &&
      (!active || (headers i).withdrawalLocked == 1)

/-- (d). The last index is computed in 32 bits, so that a count of zero leaves the
array. -/
def bindingHolds (rtLast rtNew : Field) (count : UInt32) (headers : Headers) : Bool :=
  (headers 0).prevHash == rtLast &&
    if inside : (count - 1).toNat < 256 then
      (headers ⟨(count - 1).toNat, inside⟩).stateRoot == rtNew
    else false

/-- `main`, assertion by assertion. -/
def main (rtLast rtNew : Field) (count : UInt32) (headers : Headers) : Bool :=
  decide (1 ≤ count) && decide (count ≤ 256) &&
    continuityHolds poseidon2Permutation count headers &&
    legalityHolds count headers && bindingHolds rtLast rtNew count headers

variable {poseidon2Permutation} {rtLast rtNew : Field} {count : UInt32} {headers : Headers}

private theorem continuityHolds_iff : continuityHolds poseidon2Permutation count headers = true ↔
    ∀ i j : Fin 256, i.val = j.val + 1 → i.val < count.toNat →
      (headers i).prevHash = hashHeader poseidon2Permutation (headers j) := by
  have gates : continuityHolds poseidon2Permutation count headers = true ↔
      ∀ i : Fin 255, i.val + 1 < count.toNat → (headers i.succ).prevHash =
        hashHeader poseidon2Permutation (headers i.castSucc) := by
    simp [continuityHolds, Classical.or_iff_not_imp_left]
  rw [gates]
  constructor
  · intro linked i j next active
    obtain ⟨k, rfl⟩ : ∃ k : Fin 255, j = k.castSucc := ⟨⟨j.val, by omega⟩, rfl⟩
    obtain rfl : i = k.succ := Fin.ext next
    exact linked k active
  · intro linked i active
    exact linked i.succ i.castSucc rfl active

private theorem legalityHolds_iff : legalityHolds count headers = true ↔
    (∀ i : Fin 256, i.val < count.toNat →
      (headers i).fsmState = 2 ∨ (headers i).fsmState = 3) ∧
    ∀ i : Fin 256, i.val < count.toNat → (headers i).withdrawalLocked = 1 := by
  simp [legalityHolds, Classical.or_iff_not_imp_left (a := _ ≤ _), forall_and]

private theorem bindingHolds_iff (nonempty : 1 ≤ count.toNat) (fits : count.toNat ≤ 256) :
    bindingHolds rtLast rtNew count headers = true ↔ (headers 0).prevHash = rtLast ∧
      ∀ i : Fin 256, i.val + 1 = count.toNat → (headers i).stateRoot = rtNew := by
  have last : (count - 1).toNat = count.toNat - 1 :=
    UInt32.toNat_sub_of_le _ _ (UInt32.le_iff_toNat_le.mpr nonempty)
  have inside : (count - 1).toNat < 256 := by omega
  have unique : (∀ i : Fin 256, i.val + 1 = count.toNat → (headers i).stateRoot = rtNew) ↔
      (headers ⟨(count - 1).toNat, inside⟩).stateRoot = rtNew := by
    constructor
    · intro ends
      exact ends _ (by change (count - 1).toNat + 1 = _; omega)
    · intro ends i isLast
      have same : i = ⟨(count - 1).toNat, inside⟩ :=
        Fin.ext (by change i.val = (count - 1).toNat; omega)
      rwa [same]
  rw [unique]
  simp [bindingHolds, inside]

private theorem main_eq_true_iff : main poseidon2Permutation rtLast rtNew count headers = true ↔
    Main poseidon2Permutation rtLast rtNew count headers := by
  have counted : (decide (1 ≤ count) && decide (count ≤ 256)) = true ↔
      1 ≤ count.toNat ∧ count.toNat ≤ nMax := by
    simp [UInt32.le_iff_toNat_le, nMax]
  simp only [main, Bool.and_eq_true, counted, continuityHolds_iff, legalityHolds_iff]
  constructor
  · rintro ⟨⟨⟨⟨nonempty, fits⟩, continuity⟩, policy, breaker⟩, bound⟩
    obtain ⟨starts, ends⟩ := (bindingHolds_iff nonempty fits).mp bound
    exact ⟨nonempty, fits, continuity, policy, breaker, starts, ends⟩
  · intro holds
    exact ⟨⟨⟨⟨holds.nonempty, holds.fits⟩, holds.continuity⟩, holds.policy, holds.breaker⟩,
      (bindingHolds_iff holds.nonempty holds.fits).mpr ⟨holds.starts, holds.ends⟩⟩

private theorem realHeaders_congr {headers' : Headers}
    (agree : ∀ i : Fin 256, i.val < count.toNat → headers i = headers' i) :
    realHeaders count headers = realHeaders count headers' := by
  apply List.ext_getElem?
  intro i
  by_cases active : i < count.toNat ∧ i < 256
  · rw [getElem?_realHeaders headers (i := ⟨i, active.2⟩) active.1,
      getElem?_realHeaders headers' (i := ⟨i, active.2⟩) active.1, agree _ active.1]
  · have beyond : ∀ f : Headers, (realHeaders count f)[i]? = none := by
      intro f
      apply List.getElem?_eq_none
      simp only [realHeaders, List.length_take, List.length_ofFn]
      omega
    rw [beyond, beyond]

theorem main_iff_phi : main poseidon2Permutation rtLast rtNew count headers = true ↔
    (1 ≤ count.toNat ∧ count.toNat ≤ nMax) ∧ PhiRecovery (hashHeader poseidon2Permutation)
      rtLast rtNew count.toNat (realHeaders count headers) := by
  rw [main_eq_true_iff]
  constructor
  · intro satisfied
    exact ⟨⟨satisfied.nonempty, satisfied.fits⟩, satisfied.constraints.phi⟩
  · rintro ⟨⟨nonempty, fits⟩, phi⟩
    have holds := phi.constraints nonempty fits
    exact ⟨nonempty, fits, holds.continuity, holds.policy, holds.breaker, holds.starts, holds.ends⟩

end Assertions

/-- The circuit decides `Φ_Recovery` of the first `count` headers, whatever the padding
holds. -/
theorem main_decides_phiRecovery (poseidon2Permutation : Sponge → Sponge)
    (rtLast rtNew : Field) (count : UInt32) (headers : Headers) :
    (main poseidon2Permutation rtLast rtNew count headers = true ↔
      (1 ≤ count.toNat ∧ count.toNat ≤ nMax) ∧ PhiRecovery (hashHeader poseidon2Permutation)
        rtLast rtNew count.toNat (realHeaders count headers)) ∧
    ∀ headers' : Headers, (∀ i : Fin 256, i.val < count.toNat → headers i = headers' i) →
      main poseidon2Permutation rtLast rtNew count headers =
        main poseidon2Permutation rtLast rtNew count headers' := by
  refine ⟨main_iff_phi, ?_⟩
  intro headers' agree
  rw [Bool.eq_iff_iff, main_iff_phi, main_iff_phi, realHeaders_congr agree]

end Engram.Circuit
