import Vivarium.Scalar
/-!
# Exact amounts

The rational numbers as a `Scalar`: every amount is finite, and no operation rounds.
-/
namespace Vivarium

instance : Scalar Rat where
  decLt := Rat.instDecidableLt
  decLe := Rat.instDecidableLe
  ofNat := fun n => (n : Rat)
  isFinite := fun _ => true
  whole := fun x => Int.tdiv x.num x.den

end Vivarium
