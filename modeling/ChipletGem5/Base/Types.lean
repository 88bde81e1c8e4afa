import Mathlib.Tactic

/-!
# Base types

The types of base/types.hh that several models share.
-/

namespace ChipletGem5

/-- An address, virtual or physical. -/
abbrev Addr := BitVec 64

/-- A point in simulated time, or a number of ticks; sums and products wrap around. -/
abbrev Tick := BitVec 64

end ChipletGem5
