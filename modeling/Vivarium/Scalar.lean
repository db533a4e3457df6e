/-!
# Amounts

Balances, regulators and memory cells all hold numbers of one type. The machine adds, subtracts,
multiplies, divides and compares them, counts with them, and takes their whole part; nothing else
is asked of the type. So every definition here is stated over an arbitrary `Scalar`: it runs on
64-bit floating point, and arithmetic laws are stated where the arithmetic is exact.
-/
namespace Vivarium

class Scalar (α : Type) extends Add α, Sub α, Mul α, Div α, LT α, LE α, BEq α where
  decLt : DecidableLT α
  decLe : DecidableLE α
  /-- The amount nearest to a count. -/
  ofNat : Nat → α
  isFinite : α → Bool
  /-- The integer part, toward zero, of a finite amount. -/
  whole : α → Int

instance instDecidableLTOfScalar {α : Type} [Scalar α] : DecidableLT α := Scalar.decLt
instance instDecidableLEOfScalar {α : Type} [Scalar α] : DecidableLE α := Scalar.decLe

instance (priority := low) instOfNatOfScalar {α : Type} [Scalar α] (n : Nat) : OfNat α n :=
  ⟨Scalar.ofNat n⟩

instance (priority := low) instInhabitedOfScalar {α : Type} [Scalar α] : Inhabited α := ⟨0⟩

namespace Scalar

variable {α : Type} [Scalar α]

/-- The truth value that instructions leave in memory. -/
def flag (b : Bool) : α := if b then 1 else 0

/-- An amount that differs from itself is not a number. -/
def isNaN (x : α) : Bool := !(x == x)

/-- Negative amounts, and those that are not numbers, count as nothing. -/
def positivePart (x : α) : α := if 0 ≤ x then x else 0

/-- The nearest amount between zero and `high`; zero for what is not a number. -/
def within (high x : α) : α := if 0 ≤ x then (if x ≤ high then x else high) else 0

def least (x y : α) : α := if x ≤ y then x else y

/-- The quotient of two counts. -/
def ratio (m n : Nat) : α := Scalar.ofNat m / Scalar.ofNat n

/-- Largest of the 64-bit signed integers. -/
def top : Int := 0x7FFFFFFFFFFFFFFF

/-- Least of the 64-bit signed integers. -/
def bottom : Int := -0x8000000000000000

/-- The whole part, held within the 64-bit signed range; zero for what is not a number. -/
def toWord (x : α) : Int :=
  if isFinite x then
    if whole x < bottom then bottom else if top < whole x then top else whole x
  else if 0 < x then top
  else if x < 0 then bottom
  else 0

/-- The count nearest to an amount that is not negative; a half goes up. -/
def nearest (x : α) : Nat :=
  let n := (whole x).toNat
  if (ratio 1 2 : α) ≤ x - Scalar.ofNat n then n + 1 else n

end Scalar

end Vivarium
