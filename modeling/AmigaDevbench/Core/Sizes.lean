import Mathlib.Algebra.Group.Int.Defs
import Mathlib.Algebra.GroupWithZero.Nat

/-!
# The sizes of the fixed tables

The register files, the breakpoint table and the tables of the registry are indexed by `Fin`; an
index is written as a numeral where the table is known to have an entry.
-/

namespace AmigaDevbench

/-- The address registers below the stack pointer. -/
instance neZero_seven : NeZero 7 := ⟨by decide⟩

/-- The data registers, and the memory regions of a client. -/
instance neZero_eight : NeZero 8 := ⟨by decide⟩

/-- The clients, and the hooks of a client. -/
instance neZero_sixteen : NeZero 16 := ⟨by decide⟩

/-- The host's register cache. -/
instance neZero_eighteen : NeZero 18 := ⟨by decide⟩

/-- The breakpoints, and the variables of a client. -/
instance neZero_thirtyTwo : NeZero 32 := ⟨by decide⟩

end AmigaDevbench
