import Engram.Chain.History

/-!
A validator process that restarts between blocks. The store survives a restart;
the parameters do not, because only `InitChain` installs them and it runs once.
-/

set_option autoImplicit false
set_option relaxedAutoImplicit false

namespace Engram.Chain

open Engram.Types Engram.Keeper Engram.Node Engram.Library

def execute (external : External) (height : ℕ) (k : Process) (b : Block) : Process :=
  { k with store := deliverAll external (preBlocker external k.params height.toUInt64 b.appHash
      k.store b.misbehavior b.txs) b.msgs }

/-- Stop the process and construct it again over its own store. As long as no block is
committed the consensus engine replays `InitChain` to it. -/
def restart (genesis : Process) (height : ℕ) (k : Process) : Process :=
  if height = 1 then genesis else newEngramApp k.store

inductive Lifecycle where
  | restarts
  | executes (b : Block)

def Lifecycle.isRestart : Lifecycle → Bool
  | .restarts => true
  | .executes _ => false

/-- Run a schedule; the next block has the given height. -/
def operate (external : External) (genesis : Process) : ℕ → Process → List Lifecycle → Process
  | _, k, [] => k
  | height, k, .restarts :: rest =>
      operate external genesis height (restart genesis height k) rest
  | height, k, .executes b :: rest =>
      operate external genesis (height + 1) (execute external height k b) rest

/-- The same blocks without any restart. -/
def uninterrupted (schedule : List Lifecycle) : List Lifecycle :=
  schedule.filter (fun e => !e.isRestart)

/-- What is left of a schedule from its first block on. -/
def fromFirstBlock (schedule : List Lifecycle) : List Lifecycle :=
  schedule.dropWhile Lifecycle.isRestart

/-- After the schedule the restarted validator has the parameters of the one that
never restarted, holds the same store, and gives the same verdict on every
proposal of the next height. -/
structure Transparent (external : External) (genesis : Process) (schedule : List Lifecycle) :
    Prop where
  params : (operate external genesis 1 genesis schedule).params =
    (operate external genesis 1 genesis (uninterrupted schedule)).params
  store : (operate external genesis 1 genesis schedule).store =
    (operate external genesis 1 genesis (uninterrupted schedule)).store
  verdict : ∀ (sensors : Option Sensors) (req : ProcessRequest),
    let k := operate external genesis 1 genesis schedule
    let k' := operate external genesis 1 genesis (uninterrupted schedule)
    let height := ((uninterrupted schedule).length + 1).toUInt64
    processProposal external k.params sensors height k.store req =
      processProposal external k'.params sensors height k'.store req

section Schedules

variable (external : External) (genesis : Process) {k : Process} {height : ℕ}

private theorem operate_params (later : 1 < height) (schedule : List Lifecycle) :
    (operate external genesis height k schedule).params =
      if schedule.any Lifecycle.isRestart then defaultParams else k.params := by
  induction schedule generalizing height k with
  | nil => rfl
  | cons e rest ih =>
      cases e with
      | restarts =>
          rw [operate, ih later, restart, if_neg later.ne']
          simp [Lifecycle.isRestart, newEngramApp]
      | executes b =>
          rw [operate, ih (by omega)]
          rfl

private theorem operate_default (later : 1 < height) (defaults : k.params = defaultParams)
    (schedule : List Lifecycle) : operate external genesis height k schedule =
      operate external genesis height k (uninterrupted schedule) := by
  induction schedule generalizing height k with
  | nil => rfl
  | cons e rest ih =>
      cases e with
      | restarts =>
          have same : restart genesis height k = k := by
            rw [restart, if_neg later.ne', newEngramApp, ← defaults]
          rw [operate, same]
          exact ih later defaults
      | executes b => exact ih (k := execute external height k b) (by omega) defaults

private theorem uninterrupted_of_no_restart {schedule : List Lifecycle}
    (steady : schedule.any Lifecycle.isRestart = false) : uninterrupted schedule = schedule := by
  rw [uninterrupted, List.filter_eq_self]
  intro e member
  simpa using List.any_eq_false.mp steady e member

private theorem no_restart_uninterrupted (schedule : List Lifecycle) :
    (uninterrupted schedule).any Lifecycle.isRestart = false := by
  simp [uninterrupted]

private theorem operate_fromFirstBlock (schedule : List Lifecycle) :
    operate external genesis 1 genesis schedule =
        operate external genesis 1 genesis (fromFirstBlock schedule) ∧
      uninterrupted (fromFirstBlock schedule) = uninterrupted schedule := by
  induction schedule with
  | nil => exact ⟨rfl, rfl⟩
  | cons e rest ih =>
      cases e with
      | restarts => exact ih
      | executes b => exact ⟨rfl, rfl⟩

private theorem fromFirstBlock_cases (schedule : List Lifecycle) :
    fromFirstBlock schedule = [] ∨ ∃ b rest, fromFirstBlock schedule = .executes b :: rest := by
  induction schedule with
  | nil => exact .inl rfl
  | cons e rest ih =>
      cases e with
      | restarts => exact ih
      | executes b => exact .inr ⟨b, rest, rfl⟩

end Schedules

/-- Restarts are transparent exactly when none follows the first block or when the genesis
installed the default parameters. -/
theorem restart_transparent_iff {external : External} {gs : GenesisState} {genesis : Process}
    (accepted : initChainer (newEngramApp {}) gs = .ok genesis) (schedule : List Lifecycle) :
    Transparent external genesis schedule ↔
      (fromFirstBlock schedule).any Lifecycle.isRestart = false ∨
        toParams gs.params = defaultParams := by
  have installed : genesis.params = toParams gs.params := by
    obtain ⟨_, _, rfl⟩ := initChainer_cases accepted
    rfl
  obtain ⟨begun, same⟩ := operate_fromFirstBlock external genesis schedule
  constructor
  · intro transparent
    have params := transparent.params
    rw [begun, ← same] at params
    rcases fromFirstBlock_cases schedule with none_left | ⟨b, rest, first⟩
    · exact .inl (by rw [none_left]; rfl)
    · rw [first] at params ⊢
      have steady : uninterrupted (.executes b :: rest) = .executes b :: uninterrupted rest := rfl
      rw [steady, operate, operate, operate_params external genesis (by omega),
        operate_params external genesis (by omega), no_restart_uninterrupted] at params
      cases restarted : rest.any Lifecycle.isRestart with
      | false => exact .inl restarted
      | true =>
          rw [restarted] at params
          exact .inr (installed.symm.trans params.symm)
  · intro harmless
    have equal : operate external genesis 1 genesis schedule =
        operate external genesis 1 genesis (uninterrupted schedule) := by
      rw [begun, ← same]
      rcases harmless with steady | defaults
      · rw [uninterrupted_of_no_restart steady]
      · rcases fromFirstBlock_cases schedule with none_left | ⟨b, rest, first⟩
        · rw [none_left]
          rfl
        · rw [first]
          exact operate_default external genesis (k := execute external 1 genesis b) (by omega)
            (installed.trans defaults) rest
    exact ⟨by rw [equal], by rw [equal], fun _ _ => by simp only [equal]⟩

def briskParams : Params := { defaultParams with downHysteresisThreshold := 1 }

def calmBlock : Block :=
  proposalBlock (liveSensors 4 0) (attestedProposal .anchored true 0 0) [] []

def restartExternal : External :=
  .ofProposals [attestedProposal .anchored true 0 0, attestedProposal .suspicious false 0 0]
    (fun _ _ => false)

theorem restart_transparent_default :
    Transparent restartExternal ⟨defaultParams, genesisStore⟩ [.executes calmBlock, .restarts] :=
  (restart_transparent_iff (initChainer_default (by decide)) _).mpr (.inr rfl)

/-- One restart after the first block, which every validator accepts: at the
next height the restarted validator rejects a degradation the others accept. -/
theorem restart_not_transparent :
    ∃ genesis, initChainer (newEngramApp {}) (defaultGenesisWithParams briskParams) =
        .ok genesis ∧
      (decideBlock restartExternal briskParams genesisChain calmBlock).isSome = true ∧
      ¬ Transparent restartExternal genesis [.executes calmBlock, .restarts] := by
  refine ⟨_, initChainer_default (by decide), by decide +kernel, fun transparent => ?_⟩
  have same := transparent.verdict (thinPeersBlock .suspicious).sensors
    ⟨(thinPeersBlock .suspicious).txs, 0⟩
  revert same
  decide +kernel

end Engram.Chain
