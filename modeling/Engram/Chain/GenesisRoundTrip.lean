import Engram.Chain.History

/-!
Export and import of the genesis state. There is one exporter and there are two
importers: the `InitChain` of the application, which drops three counters, and
the genesis hook of the module, which drops the parameters.
-/

set_option autoImplicit false
set_option relaxedAutoImplicit false

namespace Engram.Chain

open Engram.Types Engram.Keeper Engram.Node Engram.Library

structure Restores (exported imported : Process) : Prop where
  fsmState : imported.store.fsmState = exported.store.fsmState
  safeBlocks : imported.store.safeBlocks = exported.store.safeBlocks
  suspiciousDuration : imported.store.suspiciousDuration = exported.store.suspiciousDuration
  suspiciousSafeBlocks :
    imported.store.suspiciousSafeBlocks = exported.store.suspiciousSafeBlocks
  unhealthyStreak : imported.store.unhealthyStreak = exported.store.unhealthyStreak
  failedRecoveryAttempts :
    imported.store.failedRecoveryAttempts = exported.store.failedRecoveryAttempts
  reanchoringProofValid :
    imported.store.reanchoringProofValid = exported.store.reanchoringProofValid
  metrics : imported.store.metrics = exported.store.metrics
  params : imported.params = exported.params
  target : ∀ m : PeripheralMetrics,
    calculateNextState imported.store.currState
        { imported.store.currentFSMInput with metrics := m } imported.params =
      calculateNextState exported.store.currState
        { exported.store.currentFSMInput with metrics := m } exported.params

/-- Both importers accept the export of `k` on a fresh node and restore it. -/
structure RoundTrips (k : Process) : Prop where
  chainer : ∃ k', initChainer (newEngramApp {}) (exportGenesis k) = .ok k' ∧ Restores k k'
  module : Restores k (initGenesis (newEngramApp {}) (exportGenesis k))

/-- The counters `newInitChainer` does not import. -/
def DroppedCountersZero (st : Store) : Prop :=
  st.unhealthyStreak = 0 ∧ st.failedRecoveryAttempts = 0 ∧ st.suspiciousSafeBlocks = 0

section Importers

variable {k : Process}

private theorem initChainer_export (valid : k.params.Valid) :
    initChainer (newEngramApp {}) (exportGenesis k) = .ok ⟨k.params,
      { fsmState := some (k.store.fsmState.getD unwrittenState)
        safeBlocks := k.store.safeBlocks
        suspiciousDuration := k.store.suspiciousDuration
        reanchoringProofValid := k.store.reanchoringProofValid
        metrics := k.store.metrics }⟩ := by
  have params : toParams (exportGenesis k).params = k.params := toParams_toGenesisParams k.params
  unfold initChainer
  simp only [params]
  rw [show k.params.validate = .ok () from valid]
  cases metrics : k.store.metrics <;> simp [exportGenesis, newEngramApp, metrics]

private theorem chainer_restores_iff (valid : k.params.Valid) (written : k.store.fsmState.isSome) :
    (∃ k', initChainer (newEngramApp {}) (exportGenesis k) = .ok k' ∧ Restores k k') ↔
      DroppedCountersZero k.store := by
  obtain ⟨state, named⟩ := Option.isSome_iff_exists.mp written
  rw [initChainer_export valid]
  constructor
  · rintro ⟨k', same, restores⟩
    obtain rfl := Except.ok.inj same
    exact ⟨restores.unhealthyStreak.symm, restores.failedRecoveryAttempts.symm,
      restores.suspiciousSafeBlocks.symm⟩
  · rintro ⟨streak, attempts, safe⟩
    refine ⟨_, rfl, ?_⟩
    constructor <;> simp [named, streak, attempts, safe, Store.currState, Store.currentFSMInput]

private theorem module_restores_iff (written : k.store.fsmState.isSome) :
    Restores k (initGenesis (newEngramApp {}) (exportGenesis k)) ↔
      k.params = defaultParams := by
  obtain ⟨state, named⟩ := Option.isSome_iff_exists.mp written
  constructor
  · intro restores
    exact restores.params.symm
  · intro defaults
    constructor <;> cases metrics : k.store.metrics <;>
      simp [initGenesis, exportGenesis, newEngramApp, named, metrics, defaults,
        Store.currState, Store.currentFSMInput]

end Importers

private theorem fsmState_written {external : External} {p : Params} {genesis now : Chain}
    {past : List (Move Chain Block)} (written : genesis.store.fsmState.isSome)
    (run : Run (decideBlock external p) genesis past now) : now.store.fsmState.isSome := by
  apply run.invariant (I := fun c => c.store.fsmState.isSome = true) written
  intro c b c' _ decided
  obtain ⟨ext, _, _, committed⟩ := decideBlock_committed decided
  rw [committed.state]
  rfl

/-- In every reachable state the export survives both importers exactly when the
three dropped counters are zero and the parameters are the defaults. -/
theorem genesis_roundTrips_iff {external : External} {gs : GenesisState} {genesis : Process}
    (accepted : initChainer (newEngramApp {}) gs = .ok genesis)
    {past : List (Move Chain Block)} {now : Chain}
    (run : Run (decideBlock external genesis.params) ⟨0, genesis.store⟩ past now) :
    RoundTrips ⟨genesis.params, now.store⟩ ↔
      DroppedCountersZero now.store ∧ genesis.params = defaultParams := by
  obtain ⟨valid, _, rfl⟩ := initChainer_cases accepted
  have written := fsmState_written rfl run
  have chainer := chainer_restores_iff (k := ⟨toParams gs.params, now.store⟩) valid written
  have module := module_restores_iff (k := ⟨toParams gs.params, now.store⟩) written
  constructor
  · intro trips
    exact ⟨chainer.mp trips.chainer, module.mp trips.module⟩
  · rintro ⟨zero, defaults⟩
    exact ⟨chainer.mpr zero, module.mpr defaults⟩

theorem genesis_roundTrips_default :
    initChainer (newEngramApp {}) (defaultGenesisWithParams defaultParams) =
        .ok ⟨defaultParams, genesisStore⟩ ∧
      ∃ past now, Run (decideBlock thinPeersExternal defaultParams) ⟨0, genesisStore⟩ past now ∧
      past.length = 2 ∧ now.state = .suspicious ∧ RoundTrips ⟨defaultParams, now.store⟩ := by
  obtain ⟨past, now, run, passed⟩ := exists_run_of_replayPasses
    (decideBlock thinPeersExternal defaultParams) ⟨0, genesisStore⟩
    [thinPeersBlock .anchored, thinPeersBlock .suspicious]
    (fun past now => past.length == 2 && now.state == .suspicious &&
      now.store.unhealthyStreak == 0 && now.store.failedRecoveryAttempts == 0 &&
      now.store.suspiciousSafeBlocks == 0)
    (by decide +kernel)
  simp only [Bool.and_eq_true, beq_iff_eq] at passed
  obtain ⟨⟨⟨⟨two, state⟩, streak⟩, attempts⟩, safe⟩ := passed
  have accepted := initChainer_default (p := defaultParams) (by decide)
  exact ⟨accepted, past, now, run, two, state,
    (genesis_roundTrips_iff accepted run).mpr ⟨⟨streak, attempts, safe⟩, rfl⟩⟩

/-- One unhealthy block under the default parameters: the streak it leaves is
exported and then lost by `InitChain`. -/
theorem genesis_roundTrip_loses_streak :
    initChainer (newEngramApp {}) (defaultGenesisWithParams defaultParams) =
        .ok ⟨defaultParams, genesisStore⟩ ∧
      ∃ past now, Run (decideBlock thinPeersExternal defaultParams) ⟨0, genesisStore⟩ past now ∧
      ¬ RoundTrips ⟨defaultParams, now.store⟩ := by
  obtain ⟨past, now, run, passed⟩ := exists_run_of_replayPasses
    (decideBlock thinPeersExternal defaultParams) ⟨0, genesisStore⟩ [thinPeersBlock .anchored]
    (fun _ now => now.store.unhealthyStreak == 1) (by decide +kernel)
  refine ⟨initChainer_default (by decide), past, now, run, fun trips => ?_⟩
  have written := fsmState_written rfl run
  have valid : defaultParams.Valid := by decide
  have dropped := (chainer_restores_iff (k := ⟨defaultParams, now.store⟩) valid written).mp
    trips.chainer
  have streak : now.store.unhealthyStreak = 1 := beq_iff_eq.mp passed
  have zero := dropped.1
  rw [streak] at zero
  exact absurd zero (by decide)

end Engram.Chain
