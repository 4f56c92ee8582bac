import Mathlib.Algebra.BigOperators.Group.Finset.Basic
import Mathlib.Algebra.BigOperators.Group.Finset.Piecewise
import Mathlib.Algebra.Order.BigOperators.Group.Finset
import Mathlib.Algebra.Order.Group.Multiset
import Mathlib.Data.Finset.Union
import Mathlib.Data.Multiset.Filter
import Mathlib.Tactic.Common

/-!
Locks as a conserved quantity. Holders claim finite sets of resources; as long as the claims
add up, as multisets, to the set of locked resources, no two holders share a resource.
-/

set_option autoImplicit false
set_option relaxedAutoImplicit false

namespace Engram.Library.Leases

universe u v

variable {α : Type u} {ι β : Type v}

section Sets

variable [DecidableEq α]

/-- Returning a claim in full takes exactly its resources out of the locked set. -/
theorem eq_val_sdiff {locked claim : Finset α} {rest : Multiset α}
    (total : locked.val = rest + claim.val) : (locked \ claim).val = rest := by
  rw [Finset.sdiff_val, total, Multiset.add_sub_cancel_right]

/-- Resources that leave the world leave every claim. -/
theorem val_sdiff_eq_filter {locked gone alive : Finset α} {claims : Multiset α}
    (total : locked.val = claims.filter (· ∈ alive)) :
    (locked \ gone).val = claims.filter (· ∈ alive \ gone) := by
  rw [← Finset.filter_notMem_eq_sdiff, Finset.filter_val, total, Multiset.filter_filter]
  refine Multiset.filter_congr fun a _ => ?_
  rw [Finset.mem_sdiff, and_comm]

end Sets

section Holders

variable [Fintype ι]

theorem le_of_sum_le {claims : ι → Multiset α} {locked : Multiset α}
    (total : ∑ k, claims k ≤ locked) (i : ι) : claims i ≤ locked :=
  (Finset.single_le_sum (fun _ _ => Multiset.zero_le _) (Finset.mem_univ i)).trans total

theorem filter_sum (p : α → Prop) [DecidablePred p] (claims : ι → Multiset α) :
    (∑ k, claims k).filter p = ∑ k, (claims k).filter p :=
  let filtering : Multiset α →+ Multiset α :=
    ⟨⟨Multiset.filter p, Multiset.filter_zero p⟩, Multiset.filter_add p⟩
  map_sum filtering claims Finset.univ

variable [DecidableEq ι]

/-- Claims that add up to less than a set are apart from each other. -/
theorem disjoint_of_sum_le {claims : ι → Multiset α} {locked : Finset α} {i j : ι}
    (total : ∑ k, claims k ≤ locked.val) (distinct : i ≠ j) :
    Disjoint (claims i) (claims j) := by
  have pair : claims i + claims j ≤ locked.val := by
    refine le_trans ?_ total
    rw [← Finset.sum_pair distinct]
    exact Finset.sum_le_sum_of_subset (Finset.subset_univ _)
  exact (Multiset.nodup_add.mp (Multiset.nodup_of_le pair locked.nodup)).2.2

end Holders

end Engram.Library.Leases
