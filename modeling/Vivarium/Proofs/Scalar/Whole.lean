import Mathlib.Data.Rat.Floor
import Mathlib.Tactic.NormNum
import Vivarium.Proofs.Scalar.Ordered
/-!
# Whole parts

The whole part of a floating point number is read off its bits. It is the exact value of the number, cut off
toward zero, however large it is. A number of 2^63 or more has all its digits so far to the left that its
whole part is a multiple of four.
-/
namespace Vivarium

/-! ## Cutting off -/

namespace Scalar

variable {q : Rat}

theorem whole_of_nonneg (h : 0 ≤ q) : whole q = ⌊q⌋ := by
  have hnum : 0 ≤ q.num := Rat.num_nonneg.2 h
  change q.num.tdiv q.den = _
  rw [Int.tdiv_eq_ediv_of_nonneg hnum, Rat.floor_def']

/-- Both signs are cut off alike. -/
theorem whole_neg (q : Rat) : whole (-q) = -whole q := Int.neg_tdiv q.num q.den

theorem whole_natCast (n : Nat) : whole (n : Rat) = n := by
  rw [whole_of_nonneg (Nat.cast_nonneg n), Int.floor_natCast]

theorem whole_natCast_div (m d : Nat) : whole ((m : Rat) / d) = (m / d : Nat) := by
  rw [whole_of_nonneg (by positivity), Rat.floor_natCast_div_natCast, Int.natCast_div]

end Scalar

namespace Binary64

open Float.Model Float.Model.UnpackedFloat

/-! ## Exact values -/

/-- The exact value of a number as it comes out of its bits; zero for what is not finite. -/
def amount : UnpackedFloat → Rat
  | .finite sign m e _ => sign.apply (m : Int) * (2 : Rat) ^ e
  | _ => 0

def value (x : Float) : Rat := amount x.toModel.unpack

def integerPart (x : Float) : Int := Scalar.whole (value x)

theorem whole_apply (sign : Sign) (m : Nat) (q : Rat) :
    Scalar.whole (((sign.apply (m : Int) : Int) : Rat) * q) = sign.apply (Scalar.whole ((m : Rat) * q)) := by
  cases sign with
  | positive => simp only [Sign.apply, Int.cast_natCast]
  | negative => simp only [Sign.apply, Int.cast_neg, Int.cast_natCast, neg_mul, Scalar.whole_neg]

/-- The digits in front of the point, for a significand and the exponent that is stored with it. -/
def leading (exponent significand : Nat) : Nat :=
  if exponent < 1023 then 0
  else if exponent < 1075 then significand >>> (1075 - exponent)
  else significand <<< (exponent - 1075)

/-- The digits in front of the point make the number, cut off toward zero. -/
theorem whole_leading {e s : Nat} (hs : s < 2 ^ 53) :
    Scalar.whole ((s : Rat) * (2 : Rat) ^ ((e : Int) - 1075)) = leading e s := by
  unfold leading
  by_cases hlarge : e < 1075
  · have hexp : (2 : Rat) ^ ((e : Int) - 1075) = ((2 ^ (1075 - e) : Nat) : Rat)⁻¹ := by
      rw [show (e : Int) - 1075 = -((1075 - e : Nat) : Int) by omega, zpow_neg, zpow_natCast, Nat.cast_pow,
        Nat.cast_ofNat]
    rw [if_pos hlarge, hexp, ← div_eq_mul_inv, Scalar.whole_natCast_div]
    split
    · next hsmall =>
      have hle : 2 ^ 53 ≤ 2 ^ (1075 - e) := Nat.pow_le_pow_right (by decide) (by omega)
      rw [Nat.div_eq_of_lt (by omega)]
    · rw [Nat.shiftRight_eq_div_pow]
  · have hexp : (2 : Rat) ^ ((e : Int) - 1075) = ((2 ^ (e - 1075) : Nat) : Rat) := by
      rw [show (e : Int) - 1075 = ((e - 1075 : Nat) : Int) by omega, zpow_natCast, Nat.cast_pow,
        Nat.cast_ofNat]
    rw [if_neg (by omega), if_neg hlarge, hexp, ← Nat.cast_mul, Scalar.whole_natCast, Nat.shiftLeft_eq]

/-- The numbers below the least normal one have no digit in front of the point. -/
theorem whole_subnormal {m : Nat} (hm : m < 2 ^ 52) :
    Scalar.whole ((m : Rat) * (2 : Rat) ^ (-1074 : Int)) = 0 := by
  have hlead := whole_leading (e := 1) (s := m) (by omega)
  rw [show ((1 : Nat) : Int) - 1075 = -1074 by rfl] at hlead
  exact hlead

/-- A large whole part ends in zeros. -/
theorem four_dvd_leading {e s : Nat} (hs : s < 2 ^ 53) (h : 2 ^ 63 ≤ leading e s) : 4 ∣ leading e s := by
  unfold leading at h ⊢
  split at h
  · omega
  · split at h
    · rw [Nat.shiftRight_eq_div_pow] at h
      have := Nat.div_le_self s (2 ^ (1075 - e))
      omega
    · next hsmall hlarge =>
      rw [if_neg hsmall, if_neg hlarge, Nat.shiftLeft_eq]
      rw [Nat.shiftLeft_eq] at h
      have hshift : 2 ≤ e - 1075 := by
        by_contra hlt
        have hle : 2 ^ (e - 1075) ≤ 2 ^ 1 := Nat.pow_le_pow_right (by decide) (by omega)
        have := Nat.mul_le_mul (Nat.le_of_lt hs) hle
        omega
      exact Dvd.dvd.mul_left (Nat.pow_dvd_pow 2 hshift) s

/-! ## Bits -/

section Fields

variable (b : UInt64)

theorem toNat_exponent : ((b >>> 52) &&& 0x7FF).toNat = (@unpackExponent Format.binary64 b.toBitVec).toNat := by
  change (b.toNat >>> 52) &&& (2 ^ 11 - 1) = (b.toNat >>> 52) % 2 ^ 11
  rw [Nat.and_two_pow_sub_one_eq_mod]

theorem toNat_significand : ((b &&& 0xFFFFFFFFFFFFF) ||| 0x10000000000000).toNat =
    2 ^ 52 + (@unpackMantissa Format.binary64 b.toBitVec).toNat := by
  change (b.toNat &&& (2 ^ 52 - 1)) ||| 2 ^ 52 = 2 ^ 52 + (b.toNat >>> 0) % 2 ^ 52
  have hor := Nat.two_pow_add_eq_or_of_lt (Nat.mod_lt b.toNat (Nat.two_pow_pos 52)) 1
  rw [Nat.and_two_pow_sub_one_eq_mod, Nat.or_comm, Nat.shiftRight_zero]
  rwa [Nat.mul_one, eq_comm] at hor

theorem sign_positive_iff : b >>> 63 = 0 ↔ @unpackSign Format.binary64 b.toBitVec = 0#1 := by
  have hlt : b.toNat >>> 63 < 2 := by
    rw [Nat.shiftRight_eq_div_pow]
    have := b.toNat_lt
    omega
  rw [← UInt64.toNat_inj, ← BitVec.toNat_inj]
  change b.toNat >>> 63 = 0 ↔ (b.toNat >>> 63) % 2 ^ 1 = 0
  rw [Nat.mod_eq_of_lt hlt]

end Fields

/-- The whole part by the three fields in which a number is stored. -/
theorem whole_eq_apply (x : Float) :
    whole x = (Sign.ofBitVec (@unpackSign Format.binary64 x.toBits.toBitVec)).apply
      (leading (@unpackExponent Format.binary64 x.toBits.toBitVec).toNat
        (2 ^ 52 + (@unpackMantissa Format.binary64 x.toBits.toBitVec).toNat) : Nat) := by
  unfold whole
  rw [toNat_exponent, toNat_significand]
  by_cases hsign : x.toBits >>> 63 = 0
  · rw [Sign.ofBitVec, if_pos ((sign_positive_iff _).1 hsign)]
    exact if_pos hsign
  · rw [Sign.ofBitVec, if_neg (mt (sign_positive_iff _).2 hsign)]
    exact if_neg hsign

theorem whole_amount_ofFields (sign : Sign) (e : BitVec 11) (m : BitVec 52) (he : e ≠ -1#11) :
    Scalar.whole (amount (ofFields sign e m)) = sign.apply (leading e.toNat (2 ^ 52 + m.toNat) : Nat) := by
  have hm := m.isLt
  unfold ofFields
  rw [if_neg he]
  by_cases hsmall : e = 0#11
  · have hnone : sign.apply (leading e.toNat (2 ^ 52 + m.toNat) : Nat) = 0 := by
      rw [hsmall]
      cases sign <;> rfl
    rw [if_pos hsmall, hnone]
    by_cases hzero : m = 0#52
    · rw [dif_pos hzero]
      exact Scalar.whole_natCast 0
    · rw [dif_neg hzero, hsmall]
      change Scalar.whole (((sign.apply (m.toNat : Int) : Int) : Rat) * (2 : Rat) ^ (-1074 : Int)) = 0
      rw [whole_apply, whole_subnormal hm]
      cases sign <;> rfl
  · rw [if_neg hsmall]
    change Scalar.whole (((sign.apply ((1#1 ++ m).toNat : Int) : Int) : Rat) *
      (2 : Rat) ^ ((e.toNat : Int) - 1075)) = _
    rw [whole_apply, toNat_append_one, whole_leading (by omega)]

theorem isFinite_ofFields {sign : Sign} {e : BitVec 11} {m : BitVec 52}
    (h : (ofFields sign e m).isFinite = true) : e ≠ -1#11 := by
  rintro rfl
  unfold ofFields at h
  rw [if_pos rfl] at h
  split at h
  · cases h
  · cases h

/-- The whole part of a finite number is its exact value, cut off toward zero. -/
theorem whole_eq_integerPart {x : Float} (h : x.isFinite = true) : Scalar.whole x = integerPart x := by
  have hfields : x.toModel.unpack = _ := unpack_eq_ofFields x.toModel.toBits.toBitVec
  have hfinite : x.toModel.unpack.isFinite = true := h
  rw [hfields] at hfinite
  rw [integerPart, value, hfields, whole_amount_ofFields _ _ _ (isFinite_ofFields hfinite)]
  exact whole_eq_apply x

theorem natAbs_apply (sign : Sign) (n : Nat) : (sign.apply (n : Int)).natAbs = n := by
  cases sign with
  | positive => exact Int.natAbs_natCast n
  | negative => exact (Int.natAbs_neg _).trans (Int.natAbs_natCast n)

/-- From `2 ^ 63` on every stored number is a multiple of four. -/
theorem four_dvd_whole {x : Float} (h : 2 ^ 63 ≤ (Scalar.whole x).natAbs) : 4 ∣ Scalar.whole x := by
  have hm := (@unpackMantissa Format.binary64 x.toBits.toBitVec).isLt
  change (@unpackMantissa Format.binary64 x.toBits.toBitVec).toNat < 2 ^ 52 at hm
  have heq : Scalar.whole x = _ := whole_eq_apply x
  rw [heq, natAbs_apply] at h
  rw [heq, ← Int.natAbs_dvd_natAbs, natAbs_apply]
  exact four_dvd_leading (by omega) h

end Binary64

end Vivarium
