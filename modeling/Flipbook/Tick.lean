/-!
# Ticks

Time is counted in ticks by a 32-bit clock. Ticks are natural numbers here; what the clock
cannot hold is refused where a total is formed.
-/

namespace Flipbook.Tick

/-- The last tick that the clock can show. -/
def last : Nat := 4294967295

end Flipbook.Tick
