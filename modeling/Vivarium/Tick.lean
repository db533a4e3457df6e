/-!
# Ticks

The clock of a dish counts ticks since it was set up.
-/
namespace Vivarium

structure Tick where
  count : UInt64
  deriving DecidableEq, Repr

namespace Tick

def zero : Tick := ⟨0⟩

def next (t : Tick) : Tick := ⟨t.count + 1⟩

/-- Whether the tick is divisible by the period. -/
def qualifies (t : Tick) (period : UInt64) : Bool := t.count % period == 0

end Tick

end Vivarium
