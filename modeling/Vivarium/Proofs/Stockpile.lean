import Mathlib.Algebra.Order.Ring.Rat
import Vivarium.Scalar.Exact
import Vivarium.Stockpile
/-!
# Exact stockpiles

Over the rationals a request debits just what it returns, and a credit that is not negative is
booked in full.
-/
namespace Vivarium

namespace Scalar

theorem positivePart_eq_max (x : Rat) : positivePart x = max 0 x := by
  unfold positivePart
  by_cases h : 0 ≤ x
  · rw [max_eq_right h]
    exact if_pos h
  · rw [max_eq_left (le_of_not_ge h)]
    exact if_neg h

theorem least_eq_min (x y : Rat) : least x y = min x y := by
  unfold least
  by_cases h : x ≤ y
  · rw [min_eq_left h]
    exact if_pos h
  · rw [min_eq_right (le_of_not_ge h)]
    exact if_neg h

end Scalar

namespace Stockpile

variable (s : Stockpile Rat) (amount : Rat)

/-- What can be taken is the amount asked for, cut down to what is there. -/
theorem available_eq : s.available amount = min (max 0 amount) (max 0 s.resource) := by
  unfold available
  rw [Scalar.least_eq_min, Scalar.positivePart_eq_max, Scalar.positivePart_eq_max]
  rfl

theorem available_nonneg : 0 ≤ s.available amount := by
  rw [available_eq]
  exact le_min (le_max_left 0 amount) (le_max_left 0 s.resource)

theorem resource_request :
    (s.request amount).2.resource = s.resource - (s.request amount).1 := rfl

theorem request_nonneg : 0 ≤ (s.request amount).1 := s.available_nonneg amount

theorem resource_contribute {amount : Rat} (h : 0 ≤ amount) (d : Direction) :
    (s.contribute amount d).resource = s.resource + amount := by
  unfold contribute
  by_cases hc : creditable amount
  · rw [if_pos hc]
  · have hle : ¬(0 < amount) := by
      intro hlt
      exact hc (decide_eq_true hlt)
    rw [if_neg hc, le_antisymm (not_lt.1 hle) h, add_zero]

theorem resource_grow : (s.grow amount).resource = s.resource + amount := rfl

end Stockpile

end Vivarium
