import Mathlib.Data.List.Basic
import Mathlib.Data.List.Count
import Mathlib.Tactic.Common

/-!
A leaky counter without a cap: up on a good observation, down on a bad one, never
below zero. Its value is always earned by some latest stretch of observations.
-/

set_option autoImplicit false
set_option relaxedAutoImplicit false

namespace Engram.Library

universe u

variable {α : Type u} (good : α → Bool)

/-- The value after the given observations, newest first. -/
def leakyBalance : List α → ℕ
  | [] => 0
  | x :: xs => if good x then leakyBalance xs + 1 else leakyBalance xs - 1

/-- On some latest stretch the good observations outnumber the bad ones by
exactly the value of the counter. -/
theorem exists_stretch_leakyBalance (xs : List α) :
    ∃ recent, recent <+: xs ∧
      recent.countP good = recent.countP (fun x => !good x) + leakyBalance good xs := by
  induction xs with
  | nil => exact ⟨[], List.prefix_rfl, rfl⟩
  | cons x xs ih =>
      obtain ⟨recent, latest, counted⟩ := ih
      have extended : x :: recent <+: x :: xs := (List.prefix_cons_inj x).mpr latest
      cases observed : good x with
      | true =>
          refine ⟨x :: recent, extended, ?_⟩
          simp only [leakyBalance, List.countP_cons, observed, if_true, Bool.not_true,
            Bool.false_eq_true, if_false]
          omega
      | false =>
          -- an empty counter restarts from the empty stretch
          by_cases empty : leakyBalance good xs = 0
          · exact ⟨[], List.nil_prefix, by simp [leakyBalance, observed, empty]⟩
          · refine ⟨x :: recent, extended, ?_⟩
            simp only [leakyBalance, List.countP_cons, observed, Bool.false_eq_true, if_false,
              Bool.not_false, if_true]
            omega

end Engram.Library
