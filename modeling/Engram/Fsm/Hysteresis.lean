import Engram.Fsm.Core
import Engram.Library.LeakyCounter

/-!
Hysteresis over whole histories. The FSM keeps only capped leaky counters; here
their values are certified by the blocks of the current stay, never by an
earlier one.
-/

set_option autoImplicit false
set_option relaxedAutoImplicit false

namespace Engram.Fsm

open Engram.Types Engram.Keeper Engram.Library Engram.Library.Word64

def allowedEdges : List (FSMState × FSMState) :=
  [(.anchored, .suspicious), (.anchored, .sovereign), (.suspicious, .anchored),
    (.suspicious, .sovereign), (.sovereign, .recovering), (.recovering, .anchored),
    (.recovering, .sovereign)]

/-- The history ends with a stay in `home`, entered from `origin`; `stayed` are
its blocks after the entry block, newest first. -/
def Stay (origin home : FSMState) (history stayed : List Event) : Prop :=
  ∃ entry rest, history = stayed ++ entry :: rest ∧ entry.before = origin ∧
    entry.after = home ∧ ∀ e ∈ stayed, e.before = home ∧ e.after = home

/-- The current stay in `home` earned at least `count`. -/
def Earned (origin home : FSMState) (history : List Event) (count : UInt64) : Prop :=
  ∃ stayed, Stay origin home history stayed ∧
    count.toNat ≤ leakyBalance Event.healthy stayed

theorem Earned.step {origin home current target : FSMState} {history : List Event}
    {count cap : UInt64} {healthy : Bool} (reached : target = home)
    (earned : current = home → Earned origin home history count)
    (entered : current ≠ home → current = origin) :
    Earned origin home (⟨current, target, healthy⟩ :: history)
      (nextLeaky home current target count healthy cap) := by
  subst reached
  by_cases stays : current = target
  · subst stays
    obtain ⟨stayed, ⟨entry, rest, rfl, origin', home', inside⟩, bounded⟩ := earned rfl
    refine ⟨⟨current, current, healthy⟩ :: stayed, ⟨entry, rest, rfl, origin', home', ?_⟩, ?_⟩
    · intro e member
      rcases List.mem_cons.mp member with rfl | old
      · exact ⟨rfl, rfl⟩
      · exact inside e old
    · -- the capped and possibly wrapping counter stays below the uncapped one
      apply le_trans (toNat_nextLeaky_le _ _ _ _ _ _)
      simp only [leakyBalance]
      split <;> omega
  · refine ⟨[], ⟨⟨current, target, healthy⟩, history, rfl, entered stays, rfl, by simp⟩, ?_⟩
    simp [nextLeaky, stays]

structure Certified (p : Params) (history : List Event) (c : Core) : Prop where
  streak : c.unhealthyStreak.toNat ≤ (history.takeWhile (fun e => !e.healthy)).length
  recovering : c.state = .recovering → Earned .sovereign .recovering history c.safeBlocks
  suspicious : c.state = .suspicious →
    Earned .anchored .suspicious history c.suspiciousSafeBlocks

theorem FsmRun.certified {p : Params} {history : List Event} {now : Core}
    (run : FsmRun p history now) : Certified p history now := by
  refine FsmRun.induction ?_ ?_ run
  · exact ⟨by simp [Core.genesis], by simp [Core.genesis], by simp [Core.genesis]⟩
  · intro history c r _ certified
    refine ⟨?_, ?_, ?_⟩
    · have more := toNat_add_one_le c.unhealthyStreak
      have streak := certified.streak
      simp only [Core.advance, Core.move, nextUnhealthyStreak]
      split
      · rename_i stays
        simp only [List.takeWhile_cons, stays.2.2, Bool.not_false, if_true, List.length_cons]
        omega
      · simp
    · intro target
      exact Earned.step target certified.recovering (Core.entry_of_recovering target)
    · intro target
      exact Earned.step target certified.suspicious (Core.entry_of_suspicious target)

/-- What a block of a run guarantees, given the blocks before it. -/
structure HysteresisSafe (p : Params) (e : Event) (older : List Event) : Prop where
  edge : e.before = e.after ∨ (e.before, e.after) ∈ allowedEdges
  reanchor : e.before = .recovering → e.after = .anchored → e.healthy = true ∧
    ∃ stayed, Stay .sovereign .recovering older stayed ∧
      p.hysteresisWait.toNat ≤ stayed.countP Event.healthy ∧
      ∃ recent, recent <+: stayed ∧
        recent.countP (fun e => !e.healthy) + p.hysteresisWait.toNat ≤
          recent.countP Event.healthy
  reassure : e.before = .suspicious → e.after = .anchored → e.healthy = true ∧
    ∃ stayed, Stay .anchored .suspicious older stayed ∧
      p.suspiciousHysteresisWait.toNat ≤ (e :: stayed).countP Event.healthy
  degrade : e.before = .anchored → e.after = .suspicious →
    p.downHysteresisThreshold.toNat ≤
      ((e :: older).takeWhile (fun e => !e.healthy)).length

theorem FsmRun.hysteresisSafe {p : Params} {newer older : List Event} {e : Event} {now : Core}
    (run : FsmRun p (newer ++ e :: older) now) : HysteresisSafe p e older := by
  obtain ⟨c, r, before, rfl⟩ := run.cut
  have certified := before.certified
  refine ⟨?_, ?_, ?_, ?_⟩
  · have guards := c.target_cases p r
    simp only [allowedEdges]
    grind
  · intro state target
    obtain ⟨healthy, full, _⟩ := Core.reanchor_guards state target
    obtain ⟨stayed, stay, earned⟩ := certified.recovering state
    obtain ⟨recent, latest, counted⟩ := exists_stretch_leakyBalance Event.healthy stayed
    rw [full] at earned
    refine ⟨healthy, stayed, stay, ?_, recent, latest, by omega⟩
    have within := latest.sublist.countP_le (p := Event.healthy)
    omega
  · intro state target
    obtain ⟨healthy, full⟩ := Core.reassure_guards state target
    obtain ⟨stayed, stay, earned⟩ := certified.suspicious state
    obtain ⟨recent, latest, counted⟩ := exists_stretch_leakyBalance Event.healthy stayed
    refine ⟨healthy, stayed, stay, ?_⟩
    have within := latest.sublist.countP_le (p := Event.healthy)
    have more := toNat_add_one_le c.suspiciousSafeBlocks
    rw [ge_iff_le, UInt64.le_iff_toNat_le] at full
    rw [List.countP_cons, if_pos healthy]
    omega
  · intro state target
    obtain ⟨sick, full⟩ := Core.degrade_guards state target
    have streak := certified.streak
    have more := toNat_add_one_le c.unhealthyStreak
    rw [ge_iff_le, UInt64.le_iff_toNat_le] at full
    simp only [List.takeWhile_cons, sick, Bool.not_false, if_true, List.length_cons]
    omega

end Engram.Fsm
