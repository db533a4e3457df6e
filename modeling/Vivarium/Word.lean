/-!
# Saturating words

Counters that stay at the ends of their range instead of wrapping round.
-/
namespace Vivarium

namespace Word

/-- The largest 64-bit word. -/
def top : UInt64 := 0xFFFFFFFFFFFFFFFF

/-- The sum, or the largest word when the sum does not fit. -/
def add (a b : UInt64) : UInt64 := if b ≤ top - a then a + b else top

/-- The difference, or zero. -/
def sub (a b : UInt64) : UInt64 := if b ≤ a then a - b else 0

end Word

namespace HalfWord

/-- The largest 32-bit word. -/
def top : UInt32 := 0xFFFFFFFF

/-- The predecessor, or zero. -/
def pred (a : UInt32) : UInt32 := if a = 0 then 0 else a - 1

/-- The successor, or the largest word. -/
def succ (a : UInt32) : UInt32 := if a = top then top else a + 1

/-- Twice the word, or the largest word. -/
def double (a : UInt32) : UInt32 := if a ≤ 0x7FFFFFFF then a + a else top

end HalfWord

end Vivarium
