import Mathlib.Algebra.Group.Nat.Defs
import Mathlib.Order.Interval.Set.Defs
import Mathlib.Data.Set.Function
import Mathlib.Tactic.Ring
import Mathlib.Tactic.Common

/-!
Unordered pairs of distinct indices numbered row by row: `(0,1), (0,2), …, (1,2), …`.
-/

set_option autoImplicit false
set_option relaxedAutoImplicit false

namespace Engram.Library.TriangularIndex

def pairs (n : ℕ) : Set (ℕ × ℕ) := {e | e.1 < e.2 ∧ e.2 < n}

/-- `e` comes before `e'` in row-major order. -/
def Before (e e' : ℕ × ℕ) : Prop := e.1 < e'.1 ∨ e.1 = e'.1 ∧ e.2 < e'.2

/-- How many pairs lie in the rows above row `i`. -/
def rowStart (n : ℕ) : ℕ → ℕ
  | 0 => 0
  | i + 1 => rowStart n i + (n - 1 - i)

def index (n : ℕ) (e : ℕ × ℕ) : ℕ := rowStart n e.1 + (e.2 - e.1 - 1)

variable {n : ℕ}

private theorem rowStart_mono {i i' : ℕ} (le : i ≤ i') : rowStart n i ≤ rowStart n i' := by
  induction i', le using Nat.le_induction with
  | base => exact le_rfl
  | succ k above ih => exact ih.trans (Nat.le_add_right _ _)

/-- The closed form of a row start, without the division. -/
theorem two_mul_rowStart {i : ℕ} (le : i ≤ n) : 2 * rowStart n i + i * (i + 1) = 2 * (i * n) := by
  induction i with
  | zero => simp [rowStart]
  | succ i ih =>
      have earlier := ih (by omega)
      obtain ⟨k, rfl⟩ : ∃ k, n = k + 1 + i := ⟨n - (i + 1), by omega⟩
      have width : k + 1 + i - 1 - i = k := by omega
      rw [rowStart, width]
      ring_nf at earlier ⊢
      omega

private theorem two_mul_rowStart_last (n : ℕ) : 2 * rowStart n n = n * (n - 1) := by
  have last := two_mul_rowStart (le_refl n)
  cases n with
  | zero => rfl
  | succ m =>
      rw [Nat.add_sub_cancel]
      ring_nf at last ⊢
      omega

private theorem rowStart_le_index (e : ℕ × ℕ) : rowStart n e.1 ≤ index n e := Nat.le_add_right _ _

private theorem index_lt_rowStart_succ {e : ℕ × ℕ} (inside : e ∈ pairs n) :
    index n e < rowStart n (e.1 + 1) := by
  have ordered : e.1 < e.2 := inside.1
  have bounded : e.2 < n := inside.2
  simp only [index, rowStart]
  omega

theorem index_lt {e : ℕ × ℕ} (inside : e ∈ pairs n) : index n e < n * (n - 1) / 2 := by
  have last := two_mul_rowStart_last n
  have own := index_lt_rowStart_succ inside
  have below : rowStart n (e.1 + 1) ≤ rowStart n n := by
    have ordered : e.1 < e.2 := inside.1
    have bounded : e.2 < n := inside.2
    exact rowStart_mono (by omega)
  omega

/-- The numbering follows the row-major order. -/
theorem index_lt_index {e e' : ℕ × ℕ} (inside : e ∈ pairs n) (before : Before e e') :
    index n e < index n e' := by
  have ordered : e.1 < e.2 := inside.1
  rcases before with above | ⟨row, column⟩
  · exact (index_lt_rowStart_succ inside).trans_le
      ((rowStart_mono above).trans (rowStart_le_index e'))
  · simp only [index, row]
    omega

/-- The first pair of a row follows the last one of the row above. -/
theorem index_next_row {i : ℕ} (inside : i + 2 < n) :
    index n (i + 1, i + 2) = index n (i, n - 1) + 1 := by
  simp only [index, rowStart]
  omega

private theorem before_trichotomy (e e' : ℕ × ℕ) : Before e e' ∨ e = e' ∨ Before e' e := by
  simp only [Before, Prod.ext_iff]
  omega

theorem index_injOn : Set.InjOn (index n) (pairs n) := by
  intro e inside e' inside' same
  rcases before_trichotomy e e' with before | equal | before
  · exact absurd same (index_lt_index inside before).ne
  · exact equal
  · exact absurd same.symm (index_lt_index inside' before).ne

private theorem exists_index_eq {i k : ℕ} (le : i ≤ n) (below : k < rowStart n i) :
    ∃ e ∈ pairs n, index n e = k := by
  induction i with
  | zero => exact absurd below (Nat.not_lt_zero k)
  | succ i ih =>
      by_cases earlier : k < rowStart n i
      · exact ih (by omega) earlier
      · rw [rowStart] at below
        refine ⟨(i, i + 1 + (k - rowStart n i)), ⟨?_, ?_⟩, ?_⟩
        · change i < i + 1 + (k - rowStart n i)
          omega
        · change i + 1 + (k - rowStart n i) < n
          omega
        · simp only [index]
          omega

/-- The numbering is a bijection onto an initial segment. -/
theorem index_bijOn : Set.BijOn (index n) (pairs n) (Set.Iio (n * (n - 1) / 2)) := by
  refine ⟨fun e inside => index_lt inside, index_injOn, ?_⟩
  intro k below
  have last := two_mul_rowStart_last n
  have bound : k < n * (n - 1) / 2 := below
  exact exists_index_eq le_rfl (by omega)

end Engram.Library.TriangularIndex
