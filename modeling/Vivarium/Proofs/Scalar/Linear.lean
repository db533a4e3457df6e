import Vivarium.Proofs.Scalar.Numeric
/-!
# Amounts that are compared one way

Of two amounts that are numbers, one is less than the other exactly when the other is not as little. So it
is with exact amounts and, since its finite numbers and infinities stand in one row, with binary floating
point.
-/
namespace Vivarium

class Scalar.Linear (α : Type) [Scalar α] : Prop extends Scalar.Numeric α where
  lt_iff_not_le : ∀ {x y : α}, Scalar.IsNumber x → Scalar.IsNumber y → (x < y ↔ ¬y ≤ x)

instance : Scalar.Linear Rat where
  lt_iff_not_le _ _ := Rat.not_le.symm

instance : Scalar.Linear Float where
  lt_iff_not_le := by
    intro x y hx hy
    obtain ⟨k, hk⟩ := (Binary64.number_iff x).1 hx
    obtain ⟨l, hl⟩ := (Binary64.number_iff y).1 hy
    rw [Binary64.lt_iff, Binary64.le_iff, hk, hl]
    simp only [Option.some.injEq, exists_and_left, exists_eq_left', Int.not_le]

namespace Scalar

variable {α : Type} [Scalar α] [Scalar.Linear α] {x y z : α}

/-- Two numbers compare one way or the other. -/
theorem not_lt_iff (hx : IsNumber x) (hy : IsNumber y) : ¬x < y ↔ y ≤ x := by
  rw [Linear.lt_iff_not_le hx hy, not_not]

theorem le_of_lt (hx : IsNumber x) (hy : IsNumber y) (h : x < y) : x ≤ y :=
  (Numeric.le_total hx hy).resolve_right ((Linear.lt_iff_not_le hx hy).1 h)

theorem lt_of_lt_of_le (hx : IsNumber x) (hy : IsNumber y) (hz : IsNumber z) (h : x < y)
    (h' : y ≤ z) : x < z :=
  (Linear.lt_iff_not_le hx hz).2 fun hzx =>
    (Linear.lt_iff_not_le hx hy).1 h (Numeric.le_trans h' hzx)

end Scalar

end Vivarium
