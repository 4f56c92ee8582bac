import Engram.Chain.Step
import Engram.Fsm.Counters
import Engram.Fsm.Hysteresis
import Engram.Fsm.Oscillations

/-!
The counters and the hysteresis of the committed chain, transported from the FSM
along the refinement.
-/

set_option autoImplicit false
set_option relaxedAutoImplicit false

namespace Engram.Chain

open Engram.Types Engram.Keeper Engram.Node Engram.Library Engram.Fsm

private theorem length_le_suspiciousRun {stay older : List Event}
    (held : ∀ e ∈ stay, e.after = .suspicious) :
    stay.length ≤ suspiciousRun (stay ++ older) := by
  induction stay with
  | nil => exact Nat.zero_le _
  | cons e stay ih =>
      rw [List.cons_append, suspiciousRun_cons, if_pos (held e List.mem_cons_self)]
      exact Nat.succ_le_succ (ih (fun x member => held x (List.mem_cons_of_mem e member)))

/-- After every block of every run the counters are exact functions of the
committed history, and no stretch of the history is SUSPICIOUS for longer than
`MaxSuspiciousTime`. -/
theorem counters_exact {external : External} {p : Params} (valid : p.Valid) (small : p.Small)
    (positive : 1 ≤ p.downHysteresisThreshold) {past : List (Move Chain Block)} {now : Chain}
    (run : ChainRun external p past now) :
    CountersExact p (committedHistory external past) (core now.store) ∧
      ∀ newer stay older, committedHistory external past = newer ++ stay ++ older →
        (∀ e ∈ stay, e.after = .suspicious) → stay.length ≤ p.maxSuspiciousTime.toNat := by
  have ordered := ((Params.valid_iff p).mp valid).2.2.2.2.2.2.1
  have fsm := chainRun_fsmRun run
  refine ⟨fsm.countersExact small positive ordered, ?_⟩
  intro newer stay older split held
  rw [split, List.append_assoc] at fsm
  obtain ⟨c, before⟩ := fsm.drop
  have counters := before.countersExact small positive ordered
  have bound := UInt64.le_iff_toNat_le.mp counters.duration_bound
  calc stay.length ≤ suspiciousRun (stay ++ older) := length_le_suspiciousRun held
    _ = c.suspiciousDuration.toNat := counters.duration.symm
    _ ≤ p.maxSuspiciousTime.toNat := bound

/-- A block under sensors without live sources: one active anchor peer and nothing
else, which is a warning. -/
def thinPeersBlock (state : FSMState) : Block where
  sensors := some ⟨⟨0, none⟩, ⟨true, false, false, none⟩, ⟨1, 0, 0, 0, 0, 0⟩, none, none⟩
  round := 0
  txs := [encodeExtendedProposal (attestedProposal state false 0 0)]
  appHash := []
  misbehavior := []
  msgs := []

def thinPeersExternal : External :=
  .ofProposals [attestedProposal .anchored false 0 0, attestedProposal .suspicious false 0 0]
    (fun _ _ => false)

theorem counters_exact_degradation :
    ∃ past now, ChainRun thinPeersExternal defaultParams past now ∧
      now.state = .suspicious ∧ suspiciousRun (committedHistory thinPeersExternal past) = 2 ∧
      (core now.store).suspiciousDuration.toNat = 2 := by
  obtain ⟨past, now, run, passed⟩ := exists_run_of_replayPasses
    (decideBlock thinPeersExternal defaultParams) genesisChain
    [thinPeersBlock .anchored, thinPeersBlock .suspicious, thinPeersBlock .suspicious]
    (fun _ now => now.state == .suspicious && now.store.suspiciousDuration == 2)
    (by decide +kernel)
  simp only [Bool.and_eq_true, beq_iff_eq] at passed
  have counters := (counters_exact (by decide) (by decide) (by decide) run).1
  have duration : (core now.store).suspiciousDuration.toNat = 2 := by
    change now.store.suspiciousDuration.toNat = 2
    rw [passed.2]
    rfl
  exact ⟨past, now, run, passed.1, by rw [← counters.duration, duration], duration⟩

/-- Every decided block of every run keeps the hysteresis: the committed state
moves along allowed edges only, and the moves out of RECOVERING, SUSPICIOUS and
ANCHORED are paid for by the blocks of the current stay. -/
theorem hysteresis_safe {external : External} {p : Params} {past : List (Move Chain Block)}
    {now : Chain} (run : ChainRun external p past now) {newer older : List Event} {e : Event}
    (split : committedHistory external past = newer ++ e :: older) :
    HysteresisSafe p e older := by
  have fsm := chainRun_fsmRun run
  rw [split] at fsm
  exact fsm.hysteresisSafe

theorem hysteresis_safe_degradation :
    ∃ past now e older, ChainRun thinPeersExternal defaultParams past now ∧
      committedHistory thinPeersExternal past = e :: older ∧ e.before = .anchored ∧
      e.after = .suspicious ∧ 2 ≤ ((e :: older).takeWhile (fun e => !e.healthy)).length := by
  obtain ⟨m, older, now, run, passed⟩ := exists_run_of_newestPasses
    (decideBlock thinPeersExternal defaultParams) genesisChain
    [thinPeersBlock .anchored, thinPeersBlock .suspicious]
    (fun m _ => m.source.state == .anchored && m.target.state == .suspicious)
    (by decide +kernel)
  simp only [Bool.and_eq_true, beq_iff_eq] at passed
  have split : committedHistory thinPeersExternal (m :: older) =
      [] ++ observeBlock thinPeersExternal m :: committedHistory thinPeersExternal older := rfl
  have safe := hysteresis_safe run split
  exact ⟨_, now, _, _, run, rfl, passed.1, passed.2, safe.degrade passed.1 passed.2⟩

end Engram.Chain
