import Engram.Library.GuardedRun
import Mathlib.Algebra.GroupWithZero.Nat
import Mathlib.Data.List.Count

/-!
The potential method on runs. When every step's cost is covered by its income
and by what the potential gives up, the total cost of a stretch of steps is
covered by the potential at its beginning and the income earned on it.
-/

set_option autoImplicit false
set_option relaxedAutoImplicit false

namespace Engram.Library

universe u v

variable {σ : Type u} {β : Type v}

end Engram.Library
