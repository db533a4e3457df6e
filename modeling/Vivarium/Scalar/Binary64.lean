import Vivarium.Scalar
/-!
# Amounts in binary floating point

The 64-bit floating point numbers as a `Scalar`. The whole part is read off the bits, so it is
exact for every finite number, however large.
-/
namespace Vivarium

namespace Binary64

/-- The integer part toward zero: the significand, shifted to the place of its last bit. -/
def whole (x : Float) : Int :=
  let exponent := ((x.toBits >>> 52) &&& 0x7FF).toNat
  let significand := ((x.toBits &&& 0xFFFFFFFFFFFFF) ||| 0x10000000000000).toNat
  let magnitude :=
    if exponent < 1023 then 0
    else if exponent < 1075 then significand >>> (1075 - exponent)
    else significand <<< (exponent - 1075)
  if x.toBits >>> 63 = 0 then Int.ofNat magnitude else -Int.ofNat magnitude

end Binary64

instance : Scalar Float where
  decLt := Float.decLt
  decLe := Float.decLe
  ofNat := Float.ofNat
  isFinite := Float.isFinite
  whole := Binary64.whole

end Vivarium
