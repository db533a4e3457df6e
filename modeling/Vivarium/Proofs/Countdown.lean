import Vivarium.Word
/-!
# Countdowns

A countdown loses one with every tick and stops at zero. What it holds in force ends with the tick after which
nothing is left, so a countdown that starts at zero lasts as long as one that starts at one.
-/
namespace Vivarium

namespace HalfWord

theorem toNat_pred (a : UInt32) : (pred a).toNat = a.toNat - 1 := by
  unfold pred
  split
  · next h =>
    rw [h]
    rfl
  · next h =>
    have hle : 1 ≤ a := UInt32.le_iff_toNat_le.2 (Nat.pos_of_ne_zero fun h0 => h (UInt32.toNat_inj.1 h0))
    rw [UInt32.toNat_sub_of_le _ _ hle, UInt32.toNat_one]

def left (duration : UInt32) (ticks : Nat) : UInt32 := .ofNat (duration.toNat - ticks)

variable (duration : UInt32) (ticks : Nat)

/-- A countdown stops at zero. -/
theorem toNat_left : (left duration ticks).toNat = duration.toNat - ticks :=
  UInt32.toNat_ofNat_of_lt (Nat.lt_of_le_of_lt (Nat.sub_le _ _) duration.toNat_lt_size)

theorem left_zero : left duration 0 = duration := UInt32.toNat_inj.1 (toNat_left duration 0)

theorem pred_left : pred (left duration ticks) = left duration (ticks + 1) := by
  apply UInt32.toNat_inj.1
  rw [toNat_pred, toNat_left, toNat_left, Nat.sub_sub]

/-- What is in force after some ticks, until the countdown has run out and afterwards. -/
def hold {β : Type} (present later : β) : β :=
  if ticks < max duration.toNat 1 then present else later

variable {β : Type} (present later : β)

theorem hold_zero : hold duration 0 present later = present :=
  if_pos (Nat.lt_of_lt_of_le Nat.zero_lt_one (Nat.le_max_right _ _))

/-- One more tick passes. -/
theorem hold_succ : (if left duration (ticks + 1) = 0 then later else hold duration ticks present later) =
    hold duration (ticks + 1) present later := by
  have hzero : left duration (ticks + 1) = 0 ↔ duration.toNat ≤ ticks + 1 := by
    rw [← UInt32.toNat_inj, toNat_left, UInt32.toNat_zero, Nat.sub_eq_zero_iff_le]
  unfold hold
  by_cases h : duration.toNat ≤ ticks + 1
  · rw [if_pos (hzero.2 h), if_neg (by omega)]
  · rw [if_neg fun h0 => h (hzero.1 h0), if_pos (by omega), if_pos (by omega)]

end HalfWord

end Vivarium
