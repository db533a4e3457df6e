import Mathlib.Algebra.Order.Ring.Rat
import Mathlib.Data.Nat.Cast.Order.Ring
import Vivarium.Scalar.Binary64
import Vivarium.Scalar.Exact
import Vivarium.Tag
/-!
# Amounts that keep distances apart

The distance of two tags is one of a few fractions. Amounts that are exact tell them apart and compare
them as the numbers of differing bits compare, and so does binary floating point: a fraction of a power
of two is one of its numbers.
-/
namespace Vivarium

namespace Tag

theorem ones_le (n : Nat) (w : UInt64) : ones n w ≤ n := by
  induction n generalizing w with
  | zero => exact Nat.le_refl 0
  | succ n ih =>
    have hbit : (w &&& 1).toNat ≤ 1 := by
      rw [UInt64.toNat_and]
      exact Nat.and_le_right
    have hrest := ih (w >>> 1)
    rw [ones]
    split
    · exact Nat.zero_le _
    · omega

/-- No two words differ in more than their bits. -/
theorem hamming_le (s t : Tag) : s.hamming t ≤ 64 := ones_le 64 _

end Tag

/-- Amounts in which fractions of the tag width are in the order of their numerators, and stay what they
are where nothing is added. -/
class Scalar.Graded (α : Type) [Scalar α] : Prop where
  ratio_le_ratio : ∀ h ≤ 64, ∀ k ≤ 64,
    ((Scalar.ratio h Tag.width : α) ≤ Scalar.ratio k Tag.width ↔ h ≤ k)
  positivePart_ratio : ∀ h ≤ 64,
    Scalar.positivePart ((Scalar.ratio h Tag.width : α) + 0) = Scalar.ratio h Tag.width

instance : Scalar.Graded Rat where
  ratio_le_ratio := by
    intro h _ k _
    change (h : Rat) / ((16 : Nat) : Rat) ≤ (k : Rat) / ((16 : Nat) : Rat) ↔ h ≤ k
    have hwidth : (0 : Rat) < ((16 : Nat) : Rat) := Nat.cast_pos.2 (by decide)
    rw [div_le_div_iff_of_pos_right hwidth, Nat.cast_le]
  positivePart_ratio := by
    intro h _
    have hpos : (0 : Rat) ≤ (h : Rat) / ((16 : Nat) : Rat) :=
      div_nonneg (Nat.cast_nonneg h) (Nat.cast_nonneg 16)
    have hsum : (h : Rat) / ((16 : Nat) : Rat) + ((0 : Nat) : Rat) = (h : Rat) / ((16 : Nat) : Rat) :=
      add_zero _
    change (if ((0 : Nat) : Rat) ≤ (h : Rat) / ((16 : Nat) : Rat) + ((0 : Nat) : Rat) then
      (h : Rat) / ((16 : Nat) : Rat) + ((0 : Nat) : Rat) else ((0 : Nat) : Rat)) =
        (h : Rat) / ((16 : Nat) : Rat)
    rw [hsum]
    exact if_pos hpos

set_option maxRecDepth 10000 in
/-- All of these fractions are numbers of the format, so it is enough to look at them. -/
theorem Binary64.ratio_le_ratio : ∀ h < 65, ∀ k < 65,
    ((Scalar.ratio h Tag.width : Float) ≤ Scalar.ratio k Tag.width ↔ h ≤ k) := by decide +kernel

/-- A zero added to a fraction of the tag width leaves it as it is. -/
theorem Binary64.positivePart_ratio : ∀ h < 65,
    Scalar.positivePart ((Scalar.ratio h Tag.width : Float) + 0) = Scalar.ratio h Tag.width := by
  decide +kernel

instance : Scalar.Graded Float where
  ratio_le_ratio h hh k hk := Binary64.ratio_le_ratio h (Nat.lt_succ_of_le hh) k (Nat.lt_succ_of_le hk)
  positivePart_ratio h hh := Binary64.positivePart_ratio h (Nat.lt_succ_of_le hh)

end Vivarium
