import Vivarium.Frame.Execution
import Vivarium.Proofs.Scalar.Whole
/-!
# Turns

A relative direction is turned by its whole part, modulo four. The whole part is held within the 64-bit signed
range first. That makes no difference below the range, where whole parts are multiples of four like the least
integer of the range, but above it every turn is one to the left. Main statement: apart from that, directions
whose whole parts are congruent modulo four lead to one tile.
-/
namespace Vivarium

/-! ## Whole parts within a word -/

namespace Scalar

variable {α : Type} [Scalar α] {x : α}

theorem toWord_of_finite (h : isFinite x = true) :
    toWord x = if whole x < bottom then bottom else if top < whole x then top else whole x := if_pos h

end Scalar

namespace Direction

variable {α : Type} [Scalar α]

/-- What is not finite turns nothing. -/
theorem turn_of_not_finite (facing : Direction) {x : α} (h : Scalar.isFinite x = false) :
    facing.turn x = facing := by
  unfold turn
  rw [h]
  rfl

/-- A finite number is cut off to a word and counted modulo four. -/
theorem val_turn (facing : Direction) {x : α} (h : Scalar.isFinite x = true) :
    ((facing.turn x).val : Int) = (facing.val + Scalar.toWord x) % 4 := by
  have hturn : facing.turn x = facing + ofNat (Scalar.toWord x % 4).toNat := if_pos h
  have hofNat : (ofNat (Scalar.toWord x % 4).toNat).val = (Scalar.toWord x % 4).toNat % 4 := rfl
  rw [hturn, Fin.val_add, hofNat]
  omega

/-! ## Floating point numbers -/

variable (facing : Direction) {r r' : Float}

/-- A whole part within the range or below it counts as it is. -/
theorem val_turn_of_lt (h : r.isFinite = true) (hlt : Binary64.integerPart r < 2 ^ 63) :
    ((facing.turn r).val : Int) = (facing.val + Binary64.integerPart r) % 4 := by
  have hwhole := Binary64.whole_eq_integerPart h
  rw [val_turn facing h, Scalar.toWord_of_finite h, hwhole]
  have hbottom : Scalar.bottom = -2 ^ 63 := rfl
  have htop : Scalar.top = 2 ^ 63 - 1 := rfl
  by_cases hlow : Binary64.integerPart r < Scalar.bottom
  · have hdvd := Binary64.four_dvd_whole (x := r) (by rw [hwhole]; omega)
    rw [hwhole] at hdvd
    rw [if_pos hlow]
    omega
  · rw [if_neg hlow, if_neg (by omega)]

/-- A whole part above the range counts as one less than a multiple of four. -/
theorem val_turn_of_le (h : r.isFinite = true) (hle : 2 ^ 63 ≤ Binary64.integerPart r) :
    4 ∣ Binary64.integerPart r ∧ ((facing.turn r).val : Int) = (facing.val + 3) % 4 := by
  have hwhole := Binary64.whole_eq_integerPart h
  have hbottom : Scalar.bottom = -2 ^ 63 := rfl
  have htop : Scalar.top = 2 ^ 63 - 1 := rfl
  constructor
  · rw [← hwhole]
    exact Binary64.four_dvd_whole (by rw [hwhole]; omega)
  · rw [val_turn facing h, Scalar.toWord_of_finite h, hwhole, if_neg (by omega), if_pos (by omega)]
    omega

/-- Congruent turns are the same unless just one of them is above the range. -/
theorem turn_eq_iff (h : r.isFinite = true) (h' : r'.isFinite = true)
    (hmod : Binary64.integerPart r % 4 = Binary64.integerPart r' % 4) :
    facing.turn r = facing.turn r' ↔
      (Binary64.integerPart r < 2 ^ 63 ↔ Binary64.integerPart r' < 2 ^ 63) := by
  have hlt := facing.isLt
  rw [← Fin.val_inj, ← Int.natCast_inj]
  by_cases hr : Binary64.integerPart r < 2 ^ 63
  · by_cases hr' : Binary64.integerPart r' < 2 ^ 63
    · rw [val_turn_of_lt facing h hr, val_turn_of_lt facing h' hr']
      omega
    · obtain ⟨hdvd, hturn⟩ := val_turn_of_le facing h' (by omega)
      rw [val_turn_of_lt facing h hr, hturn]
      omega
  · obtain ⟨hdvd, hturn⟩ := val_turn_of_le facing h (by omega)
    by_cases hr' : Binary64.integerPart r' < 2 ^ 63
    · rw [val_turn_of_lt facing h' hr', hturn]
      omega
    · obtain ⟨hdvd', hturn'⟩ := val_turn_of_le facing h' (by omega)
      rw [hturn, hturn']
      omega

end Direction

/-! ## Instructions -/

namespace Call

variable {α : Type} [Scalar α]

def withRelative (c : Call α) (r : α) : Call α := { c with relative := r }

/-- All that an instruction without a level takes from its relative direction is the way it leads. -/
theorem act_withRelative {c : Call α} {r r' : α} (h : c.facing.turn r = c.facing.turn r') (op : PlainAct)
    (s : Surroundings α) : (c.withRelative r).act op s = (c.withRelative r').act op s := by
  -- An instruction reads the relative direction by the way it leads, and the other fields agree.
  simp only [act, withRelative, dir, h]

theorem reproduce_withRelative {c : Call α} {r r' : α} (h : c.facing.turn r = c.facing.turn r') (level : Nat)
    (s : Surroundings α) :
    (c.withRelative r).actAt .tryReproduce level s = (c.withRelative r').actAt .tryReproduce level s := by
  have hreproduce (w : World α) : w.tryReproduce c.pos c.facing r level c.program =
      w.tryReproduce c.pos c.facing r' level c.program := by
    simp only [World.tryReproduce, h]
  simp only [actAt, withRelative, hreproduce]

end Call

namespace Direction

/-- Directions modulo four. What is not finite counts as straight ahead. The whole part of a finite number, as
an exact integer, is added to the facing modulo four, unless it is 2^63 or more: it is then a multiple of four,
and yet the turn is three quarters. Finite numbers with congruent whole parts turn a frame to the same tile,
and whatever it sends there, a message, resource or an offspring, is sent alike, unless one of the two whole
parts is that large and the other is not: then the turns differ. -/
theorem turn_modulo_four (facing : Direction) (r r' : Float) :
    (r.isFinite = false → facing.turn r = facing) ∧
    (r.isFinite = true →
      ((facing.turn r).val : Int) < 4 ∧
      (Binary64.integerPart r < 2 ^ 63 →
        ((facing.turn r).val : Int) = (facing.val + Binary64.integerPart r) % 4) ∧
      (2 ^ 63 ≤ Binary64.integerPart r →
        4 ∣ Binary64.integerPart r ∧ ((facing.turn r).val : Int) = (facing.val + 3) % 4)) ∧
    (r.isFinite = true → r'.isFinite = true →
      Binary64.integerPart r % 4 = Binary64.integerPart r' % 4 →
      (facing.turn r = facing.turn r' ↔
        (Binary64.integerPart r < 2 ^ 63 ↔ Binary64.integerPart r' < 2 ^ 63)) ∧
      ((Binary64.integerPart r < 2 ^ 63 ↔ Binary64.integerPart r' < 2 ^ 63) →
        ∀ (c : Call Float) (s : Surroundings Float), c.facing = facing →
          s.world.neighbor c.pos (c.withRelative r).dir = s.world.neighbor c.pos (c.withRelative r').dir ∧
          (∀ op, (c.withRelative r).act op s = (c.withRelative r').act op s) ∧
          ∀ level, (c.withRelative r).actAt .tryReproduce level s =
            (c.withRelative r').actAt .tryReproduce level s)) := by
  refine ⟨fun h => turn_of_not_finite facing (x := r) h,
    fun h => ⟨?_, val_turn_of_lt facing h, val_turn_of_le facing h⟩, ?_⟩
  · exact Int.ofNat_lt.2 (facing.turn r).isLt
  · intro h h' hmod
    have hiff := turn_eq_iff facing h h' hmod
    refine ⟨hiff, fun hrange c s hc => ?_⟩
    have hturn : c.facing.turn r = c.facing.turn r' := by
      rw [hc]
      exact hiff.2 hrange
    refine ⟨congrArg (s.world.neighbor c.pos) hturn, fun op => ?_, fun level => ?_⟩
    · exact Call.act_withRelative hturn op s
    · exact Call.reproduce_withRelative hturn level s

/-- The least number above the range. -/
theorem integerPart_vast : Binary64.integerPart 9223372036854775808 = 2 ^ 63 :=
  (Binary64.whole_eq_integerPart (by decide +kernel)).symm.trans (by decide +kernel)

/-- Not a number, five, minus three and 2^63. -/
theorem turns_from_right :
    right.turn (0 / 0 : Float) = right ∧ ((right.turn (5 : Float)).val : Int) = (1 + 5) % 4 ∧
      right.turn (5 : Float) = right.turn (-3 : Float) ∧
      ((right.turn (9223372036854775808 : Float)).val : Int) = (1 + 3) % 4 := by
  have hfive : Float.isFinite 5 = true := by decide +kernel
  have hthree : Float.isFinite (-3) = true := by decide +kernel
  have hpartFive : Binary64.integerPart 5 = 5 :=
    (Binary64.whole_eq_integerPart hfive).symm.trans (by decide +kernel)
  have hpartThree : Binary64.integerPart (-3) = -3 :=
    (Binary64.whole_eq_integerPart hthree).symm.trans (by decide +kernel)
  have hrange : Binary64.integerPart 5 < 2 ^ 63 ↔ Binary64.integerPart (-3) < 2 ^ 63 := by
    rw [hpartFive, hpartThree]
    decide
  refine ⟨(turn_modulo_four right (0 / 0) 0).1 (by decide +kernel), ?_, ?_, ?_⟩
  · have hturn := ((turn_modulo_four right 5 0).2.1 hfive).2.1 (by rw [hpartFive]; decide)
    rw [hturn, hpartFive]
    rfl
  · have hmod : Binary64.integerPart 5 % 4 = Binary64.integerPart (-3) % 4 := by
      rw [hpartFive, hpartThree]
      rfl
    exact ((turn_modulo_four right 5 (-3)).2.2 hfive hthree hmod).1.2 hrange
  · exact (((turn_modulo_four right 9223372036854775808 0).2.1 (by decide +kernel)).2.2 integerPart_vast.ge).2

/-- The number 2^63 is a multiple of four, but it turns a frame to another tile than zero. -/
theorem overlong_turn :
    Float.isFinite 9223372036854775808 = true ∧
      Binary64.integerPart 9223372036854775808 = 2 ^ 63 ∧ Binary64.integerPart 0 = 0 ∧
      ((up.turn (9223372036854775808 : Float)).val : Int) ≠
        (up.val + Binary64.integerPart 9223372036854775808) % 4 ∧
      (⟨3, 3⟩ : Grid).neighbor 4 (up.turn (9223372036854775808 : Float)) ≠
        (⟨3, 3⟩ : Grid).neighbor 4 (up.turn (0 : Float)) := by
  have hzero : Binary64.integerPart 0 = 0 :=
    (Binary64.whole_eq_integerPart (by decide +kernel)).symm.trans (by decide +kernel)
  refine ⟨by decide +kernel, integerPart_vast, hzero, ?_, by decide +kernel⟩
  rw [integerPart_vast]
  decide +kernel

end Direction

end Vivarium
