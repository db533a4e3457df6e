import Vivarium.Scalar
import Vivarium.Word
/-!
# Regulators

A regulator biases the match distance of one registry entry: negative values make the entry win
more often, positive values less. It carries a countdown, and when that runs out the bias returns
to neutral.
-/
namespace Vivarium

structure Regulator (α : Type) where
  value : α
  countdown : UInt32
  deriving DecidableEq, Repr

namespace Regulator

variable {α : Type} [Scalar α]

def neutral : Regulator α := ⟨0, 0⟩

instance : Inhabited (Regulator α) := ⟨neutral⟩

def isNeutral (r : Regulator α) : Bool := r.value == 0

/-- Values that are not finite are ignored. -/
def set (r : Regulator α) (value : α) (duration : UInt32) : Regulator α :=
  if Scalar.isFinite value then ⟨value, duration⟩ else r

/-- Shift the value and start the countdown again. -/
def adjust (r : Regulator α) (delta : α) (duration : UInt32) : Regulator α :=
  r.set (r.value + delta) duration

def decay (r : Regulator α) : Regulator α :=
  let left := HalfWord.pred r.countdown
  ⟨if left = 0 then 0 else r.value, left⟩

end Regulator

end Vivarium
