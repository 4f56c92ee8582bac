import Mathlib.Data.List.Basic
import Mathlib.Tactic.Common

/-!
Runs of a guarded deterministic machine. A step is refused (`none`) or yields
one successor. A run keeps every step it took, newest first, so a statement
about the latest steps is a statement about the head of a list.
-/

set_option autoImplicit false
set_option relaxedAutoImplicit false

namespace Engram.Library

universe u v

/-- One taken step together with the state it left and the state it reached. -/
structure Move (σ : Type u) (β : Type v) where
  source : σ
  input : β
  target : σ

variable {σ : Type u} {β : Type v}

/-- A guarded step that was taken had its guard, and yielded its one successor. -/
theorem guarded_eq_some {guard : Prop} [Decidable guard] {s next : σ}
    (taken : (if guard then some s else none) = some next) : guard ∧ next = s := by
  obtain ⟨open', same⟩ := Option.ite_none_right_eq_some.mp taken
  exact ⟨open', (Option.some.inj same).symm⟩

inductive Run (step : σ → β → Option σ) (start : σ) : List (Move σ β) → σ → Prop
  | initial : Run step start [] start
  | extend {past : List (Move σ β)} {now next : σ} {input : β} :
      Run step start past now → step now input = some next →
      Run step start (⟨now, input, next⟩ :: past) next

namespace Run

variable {step : σ → β → Option σ} {start now : σ} {past : List (Move σ β)}

/-- A state predicate that holds at the start and survives every step holds at
the end of every run. -/
theorem invariant {I : σ → Prop} (run : Run step start past now) (base : I start)
    (preserved : ∀ s input next, I s → step s input = some next → I next) : I now := by
  induction run with
  | initial => exact base
  | extend _ taken ih => exact preserved _ _ _ ih taken

/-- Cutting a run at one of its steps gives the run before it and the step. -/
theorem cut {newer older : List (Move σ β)} {m : Move σ β}
    (run : Run step start (newer ++ m :: older) now) :
    Run step start older m.source ∧ step m.source m.input = some m.target := by
  induction newer generalizing now with
  | nil =>
      cases run with
      | extend before taken => exact ⟨before, taken⟩
  | cons _ newer ih =>
      cases run with
      | extend before _ => exact ih before

/-- The older steps of a run are a run of their own. -/
theorem drop {newer older : List (Move σ β)} (run : Run step start (newer ++ older) now) :
    ∃ earlier, Run step start older earlier := by
  induction newer generalizing now with
  | nil => exact ⟨now, run⟩
  | cons _ newer ih =>
      cases run with
      | extend before _ => exact ih before

theorem cut_of_mem {m : Move σ β} (run : Run step start past now) (member : m ∈ past) :
    ∃ newer older, past = newer ++ m :: older ∧ Run step start older m.source ∧
      step m.source m.input = some m.target := by
  obtain ⟨newer, older, rfl⟩ := List.append_of_mem member
  exact ⟨newer, older, rfl, run.cut⟩

/-- A run on translated inputs is a run of the machine behind the translation. -/
theorem mapInput {γ : Type v} {f : γ → β} {past : List (Move σ γ)}
    (run : Run (fun s input => step s (f input)) start past now) :
    Run step start (past.map fun m => ⟨m.source, f m.input, m.target⟩) now := by
  induction run with
  | initial => exact .initial
  | extend _ taken ih => exact .extend ih taken

/-- Forward simulation with observations: when every step of the first machine is
matched by a step of the second on the abstracted states with the same
observation, every run is matched by a run with the same observed history. -/
theorem simulate {τ : Type u} {γ ω : Type v} (other : τ → γ → Option τ) (abstraction : σ → τ)
    (observe : Move σ β → ω) (observe' : Move τ γ → ω)
    (matched : ∀ s input next, step s input = some next → ∃ input',
      other (abstraction s) input' = some (abstraction next) ∧
        observe ⟨s, input, next⟩ = observe' ⟨abstraction s, input', abstraction next⟩)
    (run : Run step start past now) :
    ∃ past', Run other (abstraction start) past' (abstraction now) ∧
      past.map observe = past'.map observe' := by
  induction run with
  | initial => exact ⟨[], .initial, rfl⟩
  | @extend past now next input _ taken ih =>
      obtain ⟨past', run', same⟩ := ih
      obtain ⟨input', taken', seen⟩ := matched now input next taken
      refine ⟨⟨abstraction now, input', abstraction next⟩ :: past', run'.extend taken', ?_⟩
      rw [List.map_cons, List.map_cons, same, seen]

end Run

/-- Execute a list of inputs in order, keeping the steps newest first. -/
def replay (step : σ → β → Option σ) :
    List (Move σ β) → σ → List β → Option (List (Move σ β) × σ)
  | past, now, [] => some (past, now)
  | past, now, input :: rest =>
      match step now input with
      | none => none
      | some next => replay step (⟨now, input, next⟩ :: past) next rest

private theorem replay_run {step : σ → β → Option σ} {start : σ} {inputs : List β}
    {past past' : List (Move σ β)} {now now' : σ} (run : Run step start past now)
    (replayed : replay step past now inputs = some (past', now')) :
    Run step start past' now' := by
  induction inputs generalizing past now with
  | nil =>
      obtain ⟨rfl, rfl⟩ := Prod.mk.inj (Option.some.inj replayed)
      exact run
  | cons input rest ih =>
      simp only [replay] at replayed
      split at replayed
      · cases replayed
      · rename_i next taken
        exact ih (run.extend taken) replayed

/-- The state a replay ends in, and the start when it is refused. -/
def replayFinal (step : σ → β → Option σ) (start : σ) (inputs : List β) : σ :=
  match replay step [] start inputs with
  | some (_, now) => now
  | none => start

theorem exists_run_replayFinal (step : σ → β → Option σ) (start : σ) (inputs : List β) :
    ∃ past, Run step start past (replayFinal step start inputs) := by
  unfold replayFinal
  split
  · rename_i past now replayed
    exact ⟨past, replay_run .initial replayed⟩
  · exact ⟨[], .initial⟩

/-- The inputs replay from the start and the outcome passes a check. -/
def replayPasses (step : σ → β → Option σ) (start : σ) (inputs : List β)
    (check : List (Move σ β) → σ → Bool) : Bool :=
  match replay step [] start inputs with
  | some (past, now) => check past now
  | none => false

theorem exists_run_of_replayPasses (step : σ → β → Option σ) (start : σ) (inputs : List β)
    (check : List (Move σ β) → σ → Bool)
    (passes : replayPasses step start inputs check = true) :
    ∃ past now, Run step start past now ∧ check past now = true := by
  unfold replayPasses at passes
  split at passes
  · rename_i past now replayed
    exact ⟨past, now, replay_run .initial replayed, passes⟩
  · cases passes

/-- The same for a check of the newest step and the steps before it. -/
theorem exists_run_of_newestPasses (step : σ → β → Option σ) (start : σ) (inputs : List β)
    (check : Move σ β → List (Move σ β) → Bool)
    (passes : replayPasses step start inputs (fun past _ => match past with
      | m :: older => check m older
      | [] => false) = true) :
    ∃ m older now, Run step start (m :: older) now ∧ check m older = true := by
  obtain ⟨past, now, run, passed⟩ := exists_run_of_replayPasses step start inputs _ passes
  cases past with
  | nil => cases passed
  | cons m older => exact ⟨m, older, now, run, passed⟩

end Engram.Library
