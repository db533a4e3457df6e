import Vivarium.Scalar.Exact
/-!
# Exact amounts and infinities

The rational numbers with the two infinities and what is not a number, as a `Scalar`. No operation rounds,
and no sum or product of rational numbers is too large. There is one zero; what is divided by it goes to the
infinity on its own side.
-/
namespace Vivarium

inductive Extended where
  | exact (q : Rat)
  | infinite (negative : Bool)
  | notANumber
  deriving DecidableEq, Repr

namespace Extended

def neg : Extended → Extended
  | exact x => exact (-x)
  | infinite s => infinite !s
  | notANumber => notANumber

def add : Extended → Extended → Extended
  | exact x, exact y => exact (x + y)
  | exact _, infinite s => infinite s
  | infinite s, exact _ => infinite s
  | infinite s, infinite t => if s = t then infinite s else notANumber
  | _, _ => notANumber

def mul : Extended → Extended → Extended
  | exact x, exact y => exact (x * y)
  | exact x, infinite s => if x = 0 then notANumber else infinite (s != decide (x < 0))
  | infinite s, exact y => if y = 0 then notANumber else infinite (s != decide (y < 0))
  | infinite s, infinite t => infinite (s != t)
  | _, _ => notANumber

def div : Extended → Extended → Extended
  | exact x, exact y =>
    if y = 0 then
      if x = 0 then notANumber else infinite (decide (x < 0))
    else exact (x / y)
  | exact _, infinite _ => exact 0
  | infinite s, exact y => infinite (s != decide (y < 0))
  | _, _ => notANumber

/-- What is not a number is not as little as anything. -/
def le : Extended → Extended → Bool
  | exact x, exact y => decide (x ≤ y)
  | exact _, infinite s => !s
  | infinite s, exact _ => s
  | infinite s, infinite t => s || !t
  | _, _ => false

def lt : Extended → Extended → Bool
  | exact x, exact y => decide (x < y)
  | exact _, infinite s => !s
  | infinite s, exact _ => s
  | infinite s, infinite t => s && !t
  | _, _ => false

def isExact : Extended → Bool
  | exact _ => true
  | _ => false

def whole : Extended → Int
  | exact x => Scalar.whole x
  | _ => 0

instance : Scalar Extended where
  add := add
  sub x y := add x (neg y)
  mul := mul
  div := div
  lt x y := lt x y = true
  le x y := le x y = true
  beq x y := decide (x = y) && decide (x ≠ notANumber)
  decLt x y := inferInstanceAs (Decidable (lt x y = true))
  decLe x y := inferInstanceAs (Decidable (le x y = true))
  ofNat n := exact n
  isFinite := isExact
  whole := whole

variable (x y : Rat)

theorem exact_add_exact : exact x + exact y = exact (x + y) := rfl

theorem exact_sub_exact : exact x - exact y = exact (x - y) := by
  rw [Rat.sub_eq_add_neg]
  rfl

theorem exact_mul_exact : exact x * exact y = exact (x * y) := rfl

theorem exact_le_exact : exact x ≤ exact y ↔ x ≤ y := decide_eq_true_iff

theorem exact_lt_exact : exact x < exact y ↔ x < y := decide_eq_true_iff

end Extended

end Vivarium
