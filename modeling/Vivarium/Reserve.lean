import Vivarium.Scalar
import Vivarium.Word
/-!
# Reserves

A reserve raises the balance that a reproduction requires, for as many qualifying ticks as it
stays fresh.
-/
namespace Vivarium

structure Reserve (α : Type) where
  amount : α
  fresh : UInt32
  deriving DecidableEq, Repr

namespace Reserve

variable {α : Type} [Scalar α]

def none : Reserve α := ⟨0, 0⟩

instance : Inhabited (Reserve α) := ⟨none⟩

/-- Amounts that are negative or not finite count as nothing. -/
def set (amount : α) (duration : UInt32) : Reserve α :=
  ⟨if Scalar.isFinite amount then Scalar.positivePart amount else 0, duration⟩

/-- Shift the amount and start the countdown again. -/
def adjust (r : Reserve α) (delta : α) (duration : UInt32) : Reserve α :=
  set (r.amount + delta) duration

/-- One qualifying tick passes. -/
def tryClear (r : Reserve α) : Reserve α :=
  let fresh := HalfWord.pred r.fresh
  ⟨if fresh = 0 then 0 else r.amount, fresh⟩

end Reserve

end Vivarium
