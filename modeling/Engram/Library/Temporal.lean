import Mathlib.Algebra.Order.Group.Nat
import Mathlib.Tactic.Common

/-!
Infinite behaviours, leads-to and weak fairness. The one rule proved here covers
both the single helpful action and a progress measure that every helpful action
lowers.
-/

set_option autoImplicit false
set_option relaxedAutoImplicit false

namespace Engram.Library

universe u

variable {σ : Type u}

/-- `P ~> Q` along a behaviour. -/
def LeadsTo (P Q : σ → Prop) (run : ℕ → σ) : Prop := ∀ n, P (run n) → ∃ m, n ≤ m ∧ Q (run m)

def Enabled (A : σ → σ → Prop) (s : σ) : Prop := ∃ t, A s t

/-- An action that stays enabled is taken. -/
def WeaklyFair (A : σ → σ → Prop) (run : ℕ → σ) : Prop :=
  ∀ n, (∀ m, n ≤ m → Enabled A (run m)) → ∃ m, n ≤ m ∧ A (run m) (run (m + 1))

section Rules

variable {run : ℕ → σ} {N A : σ → σ → Prop} {P Q : σ → Prop}

theorem always_of_steps {I : σ → Prop} (next : ∀ n, N (run n) (run (n + 1))) (base : I (run 0))
    (preserved : ∀ s t, I s → N s t → I t) (n : ℕ) : I (run n) := by
  induction n with
  | zero => exact base
  | succ n ih => exact preserved _ _ ih (next n)

private theorem stands_until {rank : σ → ℕ} (next : ∀ n, N (run n) (run (n + 1)))
    (stays : ∀ s t, P s → N s t → Q t ∨ P t ∧ rank t ≤ rank s) {n : ℕ} (start : P (run n))
    (never : ∀ m, n ≤ m → ¬ Q (run m)) {m : ℕ} (later : n ≤ m) :
    P (run m) ∧ rank (run m) ≤ rank (run n) := by
  induction m, later using Nat.le_induction with
  | base => exact ⟨start, le_rfl⟩
  | succ m later ih =>
      rcases stays _ _ ih.1 (next m) with reached | ⟨stands, bounded⟩
      · exact absurd reached (never _ (by omega))
      · exact ⟨stands, bounded.trans ih.2⟩

/-- Weak fairness of an action that lowers the rank whenever it does not reach the goal. -/
theorem WeaklyFair.leadsTo (rank : σ → ℕ) (fair : WeaklyFair A run)
    (next : ∀ n, N (run n) (run (n + 1)))
    (stays : ∀ s t, P s → N s t → Q t ∨ P t ∧ rank t ≤ rank s)
    (helps : ∀ s t, P s → A s t → Q t ∨ P t ∧ rank t < rank s)
    (enabled : ∀ s, P s → Enabled A s) : LeadsTo P Q run := by
  have ranked : ∀ r n, rank (run n) = r → P (run n) → ∃ m, n ≤ m ∧ Q (run m) := by
    intro r
    induction r using Nat.strong_induction_on with
    | h r ih =>
        rintro n rfl start
        by_contra unreached
        have never : ∀ m, n ≤ m → ¬ Q (run m) := fun m later reached =>
          unreached ⟨m, later, reached⟩
        have stands := fun m (later : n ≤ m) => stands_until next stays start never later
        obtain ⟨m, later, taken⟩ := fair n (fun m later => enabled _ (stands m later).1)
        rcases helps _ _ (stands m later).1 taken with reached | ⟨standing, lower⟩
        · exact never (m + 1) (by omega) reached
        · obtain ⟨m', later', reached⟩ :=
            ih _ (lower.trans_le (stands m later).2) (m + 1) rfl standing
          exact never m' (by omega) reached
  exact fun n start => ranked _ n rfl start

/-- Lamport's rule for one helpful action. -/
theorem WeaklyFair.leadsTo_of_helps (fair : WeaklyFair A run)
    (next : ∀ n, N (run n) (run (n + 1))) (stays : ∀ s t, P s → N s t → Q t ∨ P t)
    (helps : ∀ s t, P s → A s t → Q t) (enabled : ∀ s, P s → Enabled A s) :
    LeadsTo P Q run := by
  refine fair.leadsTo (fun _ => 0) next ?_ ?_ enabled
  · intro s t stands step
    exact (stays s t stands step).imp_right (fun standing => ⟨standing, le_rfl⟩)
  · intro s t stands taken
    exact .inl (helps s t stands taken)

/-- The obligation may be strengthened by an invariant of the behaviour, and needs
discharging only where the goal does not hold already. -/
theorem LeadsTo.of_unmet {I : σ → Prop} (always : ∀ n, I (run n))
    (leads : LeadsTo (fun s => P s ∧ ¬ Q s ∧ I s) Q run) : LeadsTo P Q run := by
  intro n start
  by_cases met : Q (run n)
  · exact ⟨n, le_rfl, met⟩
  · exact leads n ⟨start, met, always n⟩

/-- A goal that itself leads on. -/
theorem LeadsTo.trans {R : σ → Prop} (first : LeadsTo P (fun s => Q s ∨ R s) run)
    (second : LeadsTo R Q run) : LeadsTo P Q run := by
  intro n start
  obtain ⟨m, later, reached | onward⟩ := first n start
  · exact ⟨m, later, reached⟩
  · obtain ⟨m', later', reached⟩ := second m onward
    exact ⟨m', later.trans later', reached⟩

end Rules

section RoundRobin

/-- The behaviour that takes `p` actions in turn; `act s j` is the `s`-th in cycle `j`. -/
def roundRobin (p : ℕ) (act : ℕ → ℕ → σ → σ) (start : σ) : ℕ → σ
  | 0 => start
  | i + 1 => act (i % p) (i / p) (roundRobin p act start i)

variable {p : ℕ} {act : ℕ → ℕ → σ → σ} {start : σ}

theorem roundRobin_step {s : ℕ} (below : s < p) (j : ℕ) :
    roundRobin p act start (p * j + s + 1) = act s j (roundRobin p act start (p * j + s)) := by
  have phase : (p * j + s) % p = s := by
    rw [Nat.mul_add_mod, Nat.mod_eq_of_lt below]
  have cycle : (p * j + s) / p = j := by
    rw [Nat.mul_add_div (by omega), Nat.div_eq_of_lt below, Nat.add_zero]
  rw [roundRobin, phase, cycle]

theorem roundRobin_invariant {I : σ → Prop} (base : I start)
    (preserved : ∀ s j a, I a → I (act s j a)) (i : ℕ) : I (roundRobin p act start i) := by
  induction i with
  | zero => exact base
  | succ i ih => exact preserved _ _ _ ih

/-- Every index is in a cycle, so what is proved of each action in turn holds of every step. -/
theorem roundRobin_next {N : σ → σ → Prop} (positive : 0 < p)
    (steps : ∀ s j, s < p → N (roundRobin p act start (p * j + s))
      (act s j (roundRobin p act start (p * j + s)))) (i : ℕ) :
    N (roundRobin p act start i) (roundRobin p act start (i + 1)) := by
  have taken := steps (i % p) (i / p) (Nat.mod_lt i positive)
  have step : roundRobin p act start (p * (i / p) + i % p + 1) = _ :=
    roundRobin_step (Nat.mod_lt i positive) (i / p)
  rwa [← step, Nat.div_add_mod] at taken

end RoundRobin

end Engram.Library
