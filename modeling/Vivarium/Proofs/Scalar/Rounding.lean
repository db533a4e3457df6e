import Mathlib.Data.Nat.Log
import Mathlib.Tactic.Ring
import Vivarium.Scalar.Binary64
/-!
# Rounding in binary floating point

A finite number is an integer significand below 2^53 times a power of two, and every such number is a
multiple of the unit 2^-1074. Its rank counts the numbers between zero and its magnitude, so that
comparing numbers is comparing ranks. A sum is rounded to a neighbour of the exact sum, and so no number
lies between the two: rounding keeps the order.
-/
namespace Vivarium.Binary64

open Float.Model Float.Model.UnpackedFloat

/-! ## Ranks -/

/-- A finite magnitude as it is stored: significand `m` and exponent `n` above the least one. -/
structure Stored (m n : Nat) : Prop where
  lt : m < 2 ^ 53
  normal : 0 < n → 2 ^ 52 ≤ m

/-- The place of a stored magnitude among all of them. -/
def rank (m n : Nat) : Nat := n * 2 ^ 52 + m

/-- The rank of what is too large to be stored. -/
def rankOfInfinity : Nat := 2047 * 2 ^ 52

/-- Magnitudes are in the order of their ranks. -/
theorem rank_lt_iff {m n p q : Nat} (h : Stored m n) (h' : Stored p q) :
    rank m n < rank p q ↔ n < q ∨ n = q ∧ m < p := by
  have hm := h.lt
  have hp := h'.lt
  have hn := h.normal
  have hq := h'.normal
  unfold rank
  omega

/-- Significand `r` and exponent `t` are next to an amount of units, or equal to it. The exponent is
the least at which the amount has no more than 53 digits. -/
structure Rounds (amount r t : Nat) : Prop where
  below : amount < (r + 1) * 2 ^ t
  above : r * 2 ^ t < amount + 2 ^ t
  high : amount < 2 ^ (53 + t)
  low : 0 < t → 2 ^ (52 + t) ≤ amount

namespace Rounds

variable {amount r t m n : Nat}

theorem le (h : Rounds amount r t) : r ≤ 2 ^ 53 := by
  have hlt : r * 2 ^ t < (2 ^ 53 + 1) * 2 ^ t := by
    have habove := h.above
    have hhigh := h.high
    rw [pow_add] at hhigh
    rw [add_mul, one_mul]
    omega
  exact Nat.lt_succ_iff.1 (Nat.lt_of_mul_lt_mul_right hlt)

theorem normal (h : Rounds amount r t) (ht : 0 < t) : 2 ^ 52 ≤ r := by
  have hlt : 2 ^ 52 * 2 ^ t < (r + 1) * 2 ^ t := by
    rw [← pow_add]
    exact (h.low ht).trans_lt h.below
  exact Nat.lt_succ_iff.1 (Nat.lt_of_mul_lt_mul_right hlt)

/-- What is no more than the amount is no more than the amount rounded. -/
theorem rank_le (h : Rounds amount r t) (hs : Stored m n) (hle : m * 2 ^ n ≤ amount) :
    rank m n ≤ rank r t := by
  have hm := hs.lt
  unfold rank
  rcases lt_trichotomy n t with hnt | rfl | hnt
  · have hr := h.normal (Nat.zero_lt_of_lt hnt)
    omega
  · have hmr : m < r + 1 := Nat.lt_of_mul_lt_mul_right (hle.trans_lt h.below)
    omega
  · have hlarge : 2 ^ (53 + t) ≤ m * 2 ^ n := calc
      2 ^ (53 + t) ≤ 2 ^ (52 + n) := Nat.pow_le_pow_right (by decide) (by omega)
      _ = 2 ^ 52 * 2 ^ n := pow_add _ _ _
      _ ≤ m * 2 ^ n := Nat.mul_le_mul_right _ (hs.normal (Nat.zero_lt_of_lt hnt))
    exact absurd h.high (Nat.not_lt.2 (hlarge.trans hle))

/-- What is no less than the amount is no less than the amount rounded. -/
theorem le_rank (h : Rounds amount r t) (hs : Stored m n) (hle : amount ≤ m * 2 ^ n) :
    rank r t ≤ rank m n := by
  have hm := hs.lt
  unfold rank
  rcases lt_trichotomy n t with hnt | rfl | hnt
  · have hsmall : m * 2 ^ n < 2 ^ (52 + t) := calc
      m * 2 ^ n < 2 ^ 53 * 2 ^ n := Nat.mul_lt_mul_of_pos_right hm (Nat.two_pow_pos n)
      _ = 2 ^ (53 + n) := (pow_add _ _ _).symm
      _ ≤ 2 ^ (52 + t) := Nat.pow_le_pow_right (by decide) (by omega)
    exact absurd ((h.low (Nat.zero_lt_of_lt hnt)).trans hle) (Nat.not_le.2 hsmall)
  · have hrm : r < m + 1 := by
      refine Nat.lt_of_mul_lt_mul_right (a := 2 ^ n) (h.above.trans_le ?_)
      rw [add_mul, one_mul]
      exact Nat.add_le_add_right hle _
    omega
  · have hr := h.le
    have hnormal := hs.normal (Nat.zero_lt_of_lt hnt)
    omega

end Rounds

/-! ## Shifts -/

/-- Shifting to the right drops digits, and the two extra bits are clear if nothing was dropped. -/
theorem shiftRight_spec (m k : Nat) :
    (ExtendedMantissa.ofMantissaAndAccuracy m .exact >>> k).mantissa = m / 2 ^ k ∧
    (2 ^ k ∣ m → (ExtendedMantissa.ofMantissaAndAccuracy m .exact >>> k).roundBit = false ∧
      (ExtendedMantissa.ofMantissaAndAccuracy m .exact >>> k).stickyBit = false) := by
  induction k with
  | zero =>
    refine ⟨?_, fun _ => ⟨rfl, rfl⟩⟩
    rw [pow_zero, Nat.div_one]
    rfl
  | succ k ih =>
    obtain ⟨hm, hexact⟩ := ih
    have hshift : ExtendedMantissa.ofMantissaAndAccuracy m .exact >>> (k + 1) =
        (ExtendedMantissa.ofMantissaAndAccuracy m .exact >>> k).shiftRightOne := rfl
    rw [hshift]
    refine ⟨?_, fun hd => ?_⟩
    · rw [pow_succ, ← Nat.div_div_eq_div_mul, ← hm]
      rfl
    · obtain ⟨q, rfl⟩ := hd
      have hd : 2 ^ k ∣ 2 ^ (k + 1) * q := by
        rw [pow_succ, mul_assoc]
        exact Nat.dvd_mul_right _ _
      obtain ⟨hround, hsticky⟩ := hexact hd
      have heven : 2 ^ (k + 1) * q / 2 ^ k = 2 * q := by
        rw [pow_succ, mul_assoc, Nat.mul_div_cancel_left _ (Nat.two_pow_pos k)]
      constructor
      · simp [ExtendedMantissa.shiftRightOne, hm, heven]
      · simp [ExtendedMantissa.shiftRightOne, hround, hsticky]

/-- Rounding after a shift goes to the next number below or above, and nowhere if the shift was
exact. -/
theorem rounded_shiftRight (m k : Nat) :
    m < ((ExtendedMantissa.ofMantissaAndAccuracy m .exact >>> k).roundedMantissa + 1) * 2 ^ k ∧
    (ExtendedMantissa.ofMantissaAndAccuracy m .exact >>> k).roundedMantissa * 2 ^ k < m + 2 ^ k := by
  obtain ⟨hm, hexact⟩ := shiftRight_spec m k
  generalize ExtendedMantissa.ofMantissaAndAccuracy m .exact >>> k = em at hm hexact ⊢
  obtain ⟨q, round, sticky⟩ := em
  simp only at hm hexact
  have hpos := Nat.two_pow_pos k
  have hdiv := Nat.div_add_mod m (2 ^ k)
  have hmod := Nat.mod_lt m hpos
  rw [← hm, mul_comm] at hdiv
  have hstay : m < (q + 1) * 2 ^ k ∧ q * 2 ^ k < m + 2 ^ k := by
    rw [add_mul, one_mul]
    omega
  have hup (h : ¬2 ^ k ∣ m) : m < (q + 1 + 1) * 2 ^ k ∧ (q + 1) * 2 ^ k < m + 2 ^ k := by
    have hrest : 0 < m % 2 ^ k := Nat.pos_of_ne_zero fun h0 => h (Nat.dvd_of_mod_eq_zero h0)
    rw [add_mul, add_mul, one_mul]
    omega
  cases round with
  | false =>
    cases sticky with
    | false => exact hstay
    | true => exact hstay
  | true =>
    have hinexact : ¬2 ^ k ∣ m := fun hd => Bool.noConfusion (hexact hd).1
    cases sticky with
    | true => exact hup hinexact
    | false =>
      change m < (q + q % 2 + 1) * 2 ^ k ∧ (q + q % 2) * 2 ^ k < m + 2 ^ k
      rcases Nat.mod_two_eq_zero_or_one q with h | h
      · rw [h]
        exact hstay
      · rw [h]
        exact hup hinexact

/-! ## Rounding -/

theorem targetExponent_eq (m i : Nat) :
    Format.binary64.targetExponent (totalExponent m ((i : Int) - 1074)) =
      ((m.log2 + i - 52 : Nat) : Int) - 1074 := by
  change max ((m.log2 : Int) + 1 + ((i : Int) - 1074) - 53) (-1074) = _
  omega

/-- A rounded significand as a number; if rounding up filled all its digits, they are shifted. -/
def carried (sign : Sign) (r t : Nat) : UnpackedFloat :=
  if h : r = 0 then .zero sign
  else if r = 2 ^ 53 then .finite sign (2 ^ 52) (((t + 1 : Nat) : Int) - 1074) (by decide)
  else .finite sign r ((t : Int) - 1074) (Nat.pos_of_ne_zero h)

theorem shiftToTargetExponent_eq (m i : Nat) :
    shiftToTargetExponent Format.binary64 m ((i : Int) - 1074) .exact =
      (ExtendedMantissa.ofMantissaAndAccuracy m .exact >>> (m.log2 + i - 52 - i),
        ((i + (m.log2 + i - 52 - i) : Nat) : Int) - 1074) := by
  have hk : (((m.log2 + i - 52 : Nat) : Int) - 1074 - ((i : Int) - 1074)).toNat =
      m.log2 + i - 52 - i := by omega
  simp only [shiftToTargetExponent, targetExponent_eq, shiftToExponent, hk, Prod.mk.injEq, true_and]
  omega

/-- The number that is read off a shifted significand. -/
def readOff (sign : Sign) (x : ExtendedMantissa × Int) : UnpackedFloat :=
  if h : x.1.mantissa = 0 then .zero sign
  else .finite sign x.1.mantissa x.2 (Nat.pos_of_ne_zero h)

/-- Rounding shifts twice: once to drop digits, and again in case rounding up has brought one more. -/
theorem roundWithAccuracy_eq_readOff (sign : Sign) (m : Nat) (e : Int) :
    roundWithAccuracy Format.binary64 sign m e .exact =
      readOff sign (shiftToTargetExponent Format.binary64
        (shiftToTargetExponent Format.binary64 m e .exact).1.roundedMantissa
        (shiftToTargetExponent Format.binary64 m e .exact).2 .exact) := rfl

/-- Once the significand has no more than 53 digits but for a carry, rounding is over. -/
theorem roundWithAccuracy_eq (sign : Sign) (m i : Nat) {r t : Nat}
    (hr : (ExtendedMantissa.ofMantissaAndAccuracy m .exact >>> (m.log2 + i - 52 - i)).roundedMantissa
      = r) (ht : i + (m.log2 + i - 52 - i) = t) (hle : r ≤ 2 ^ 53) :
    roundWithAccuracy Format.binary64 sign m ((i : Int) - 1074) .exact = carried sign r t := by
  rw [roundWithAccuracy_eq_readOff, shiftToTargetExponent_eq, hr, ht, shiftToTargetExponent_eq]
  by_cases hcarry : r = 2 ^ 53
  · subst hcarry
    have hone : (2 ^ 53 : Nat).log2 + t - 52 - t = 1 := by
      rw [Nat.log2_two_pow]
      omega
    rw [hone]
    rfl
  · have hlog : r.log2 < 53 ∨ r = 0 := by
      by_cases h0 : r = 0
      · exact .inr h0
      · exact .inl ((Nat.log2_lt h0).2 (by omega))
    have hshift : r.log2 + t - 52 - t = 0 := by
      cases hlog with
      | inl hlog => omega
      | inr h0 => simp [h0]
    rw [hshift]
    unfold carried
    by_cases h0 : r = 0
    · rw [dif_pos h0]
      exact dif_pos h0
    · rw [dif_neg h0, if_neg hcarry]
      exact dif_neg h0

theorem log2_shiftLeft {m : Nat} (hm : m ≠ 0) (j : Nat) : (m <<< j).log2 = m.log2 + j := by
  rw [Nat.shiftLeft_eq, Nat.log2_eq_iff (Nat.mul_ne_zero hm (Nat.two_pow_pos j).ne')]
  constructor
  · rw [pow_add]
    exact Nat.mul_le_mul_right _ (Nat.log2_self_le hm)
  · rw [Nat.add_right_comm, pow_add]
    exact Nat.mul_lt_mul_of_pos_right Nat.lt_log2_self (Nat.two_pow_pos j)

theorem amount_lt (m i : Nat) : m * 2 ^ i < 2 ^ (53 + (m.log2 + i - 52)) :=
  calc m * 2 ^ i
    _ < 2 ^ (m.log2 + 1) * 2 ^ i := Nat.mul_lt_mul_of_pos_right Nat.lt_log2_self (Nat.two_pow_pos i)
    _ = 2 ^ (m.log2 + 1 + i) := (pow_add _ _ _).symm
    _ ≤ 2 ^ (53 + (m.log2 + i - 52)) := Nat.pow_le_pow_right (by decide) (by omega)

theorem le_amount {m i : Nat} (hm : m ≠ 0) (h : 0 < m.log2 + i - 52) :
    2 ^ (52 + (m.log2 + i - 52)) ≤ m * 2 ^ i :=
  calc 2 ^ (52 + (m.log2 + i - 52))
    _ = 2 ^ (m.log2 + i) := by congr 1; omega
    _ = 2 ^ m.log2 * 2 ^ i := pow_add _ _ _
    _ ≤ m * 2 ^ i := Nat.mul_le_mul_right _ (Nat.log2_self_le hm)

/-- Every exact amount is rounded to a number next to it. -/
theorem exists_round (sign : Sign) {m : Nat} (hm : 0 < m) (i : Nat) :
    ∃ r t, Rounds (m * 2 ^ i) r t ∧
      UnpackedFloat.round Format.binary64 sign m ((i : Int) - 1074) = carried sign r t := by
  have hm0 : m ≠ 0 := Nat.ne_of_gt hm
  -- First the exponent is lowered, which loses nothing, then raised.
  have hdown : (((i : Nat) : Int) - 1074 - (((m.log2 + i - 52 : Nat) : Int) - 1074)).toNat =
      i - (m.log2 + i - 52) := by omega
  generalize hj : i - (m.log2 + i - 52) = j at hdown
  have hlog := log2_shiftLeft hm0 j
  have hexp : (i : Int) - 1074 - (j : Int) = ((i - j : Nat) : Int) - 1074 := by omega
  generalize hk : (m <<< j).log2 + (i - j) - 52 - (i - j) = k
  obtain ⟨hbelow, habove⟩ := rounded_shiftRight (m <<< j) k
  generalize hr :
    (ExtendedMantissa.ofMantissaAndAccuracy (m <<< j) .exact >>> k).roundedMantissa = r at hbelow habove
  have hamount : m <<< j * 2 ^ (i - j) = m * 2 ^ i := by
    rw [Nat.shiftLeft_eq, mul_assoc, ← pow_add]
    congr 2
    omega
  have hpow : 2 ^ k * 2 ^ (i - j) = 2 ^ (m.log2 + i - 52) := by
    rw [← pow_add]
    congr 1
    omega
  have hpos := Nat.two_pow_pos (i - j)
  have hrounds : Rounds (m * 2 ^ i) r (m.log2 + i - 52) := by
    refine ⟨?_, ?_, amount_lt m i, le_amount hm0⟩
    · rw [← hamount, ← hpow, ← mul_assoc]
      exact Nat.mul_lt_mul_of_pos_right hbelow hpos
    · rw [← hamount, ← hpow, ← mul_assoc, ← add_mul]
      exact Nat.mul_lt_mul_of_pos_right habove hpos
  refine ⟨r, m.log2 + i - 52, hrounds, ?_⟩
  simp only [UnpackedFloat.round, targetExponent_eq, decreaseExponent, hdown, hexp]
  refine roundWithAccuracy_eq sign _ _ ?_ ?_ hrounds.le
  · rw [hk]
    exact hr
  · omega

/-! ## Packing -/

/-- The rank with its sign; what is not a number has none. -/
def key? : UnpackedFloat → Option Int
  | .notANumber => none
  | .infinity sign => some (sign.apply rankOfInfinity)
  | .zero _ => some 0
  | .finite sign m e _ => some (sign.apply (rank m (e + 1074).toNat))

theorem key?_finite (sign : Sign) {m : Nat} (hm : 0 < m) (n : Nat) :
    key? (.finite sign m ((n : Int) - 1074) hm) = some (sign.apply ↑(rank m n)) := by
  have hexp : ((n : Int) - 1074 + 1074).toNat = n := by omega
  change some (sign.apply ↑(rank m ((n : Int) - 1074 + 1074).toNat)) = _
  rw [hexp]

/-- A number as it comes out of its bits. -/
def Proper : UnpackedFloat → Prop
  | .finite _ m e _ => ∃ n : Nat, e = (n : Int) - 1074 ∧ Stored m n ∧ n < 2046
  | _ => True

/-- The number that is stored for a result. -/
def repack (u : UnpackedFloat) : UnpackedFloat :=
  UnpackedFloat.unpack Format.binary64 (UnpackedFloat.pack Format.binary64 u)

theorem unpackSign_packComponents (sign : Sign) (e : BitVec 11) (m : BitVec 52) :
    unpackSign (packComponents Format.binary64 sign e m) = sign.toBitVec := by
  change (sign.toBitVec ++ e ++ m).extractLsb' 63 1 = sign.toBitVec
  rw [BitVec.extractLsb'_append_eq_of_le (by decide),
    BitVec.extractLsb'_append_eq_of_le (by decide)]
  cases sign <;> rfl

theorem toNat_append_one (m : BitVec 52) : (1#1 ++ m).toNat = 2 ^ 52 + m.toNat := by
  rw [BitVec.toNat_append, ← Nat.shiftLeft_add_eq_or_of_lt m.isLt]
  rfl

/-- The number that is read off a sign, an exponent and digits as they are stored. -/
def ofFields (sign : Sign) (e : BitVec 11) (m : BitVec 52) : UnpackedFloat :=
  if e = -1#11 then
    if m = 0#52 then .infinity sign else .notANumber
  else if e = 0#11 then
    if h : m = 0#52 then .zero sign
    else .finite sign m.toNat ((e.toNat : Int) - (1023 + 52) + 1)
      (Nat.pos_of_ne_zero fun h0 => h (BitVec.eq_of_toNat_eq h0))
  else .finite sign (1#1 ++ m).toNat ((e.toNat : Int) - (1023 + 52))
    (toNat_append_one m ▸ Nat.add_pos_left (Nat.two_pow_pos 52) _)

theorem unpack_eq_ofFields (b : BitVec 64) :
    UnpackedFloat.unpack Format.binary64 b =
      ofFields (Sign.ofBitVec (@unpackSign Format.binary64 b))
        (@unpackExponent Format.binary64 b) (@unpackMantissa Format.binary64 b) := rfl

theorem proper_ofFields (sign : Sign) (e : BitVec 11) (m : BitVec 52) :
    Proper (ofFields sign e m) := by
  have hm := m.isLt
  have he := e.isLt
  unfold ofFields
  by_cases hinf : e = -1#11
  · rw [if_pos hinf]
    by_cases hzero : m = 0#52
    · rw [if_pos hzero]
      trivial
    · rw [if_neg hzero]
      trivial
  · rw [if_neg hinf]
    by_cases hsmall : e = 0#11
    · rw [if_pos hsmall]
      by_cases hzero : m = 0#52
      · rw [dif_pos hzero]
        trivial
      · rw [dif_neg hzero]
        refine ⟨0, ?_, ⟨?_, fun h => absurd h (Nat.lt_irrefl 0)⟩, by decide⟩
        · rw [hsmall]
          rfl
        · exact hm.trans (by decide)
    · rw [if_neg hsmall]
      have hpos : e.toNat ≠ 0 := fun h => hsmall (BitVec.eq_of_toNat_eq h)
      have hmax : e.toNat ≠ 2047 := fun h => hinf (BitVec.eq_of_toNat_eq h)
      refine ⟨e.toNat - 1, by omega, ⟨?_, fun _ => ?_⟩, by omega⟩
      · rw [toNat_append_one]
        omega
      · rw [toNat_append_one]
        exact Nat.le_add_right _ _

/-- Every word is read as a proper number. -/
theorem proper_unpack (b : BitVec 64) : Proper (UnpackedFloat.unpack Format.binary64 b) := by
  rw [unpack_eq_ofFields]
  exact proper_ofFields _ _ _

/-- Exponent and digits, taken as one number, are the rank. -/
theorem key?_ofFields (sign : Sign) (e : BitVec 11) (m : BitVec 52) (h : e ≠ -1#11) :
    key? (ofFields sign e m) =
      some (sign.apply ↑(if e = 0#11 then m.toNat else rank (2 ^ 52 + m.toNat) (e.toNat - 1))) := by
  unfold ofFields
  rw [if_neg h]
  by_cases hsmall : e = 0#11
  · rw [if_pos hsmall, if_pos hsmall]
    by_cases hzero : m = 0#52
    · rw [dif_pos hzero, hzero]
      cases sign <;> rfl
    · rw [dif_neg hzero]
      subst hsmall
      change some (sign.apply ↑(rank m.toNat 0)) = _
      rw [rank, Nat.zero_mul, Nat.zero_add]
  · rw [if_neg hsmall, if_neg hsmall]
    have hpos : e.toNat ≠ 0 := fun h0 => hsmall (BitVec.eq_of_toNat_eq h0)
    have hexp : ((e.toNat : Int) - (1023 + 52) + 1074).toNat = e.toNat - 1 := by omega
    change some (sign.apply ↑(rank (1#1 ++ m).toNat ((e.toNat : Int) - (1023 + 52) + 1074).toNat)) = _
    rw [hexp, toNat_append_one]

/-- A number that is put together from its components. -/
theorem key?_packComponents (sign : Sign) (e : BitVec 11) (m : BitVec 52) (h : e ≠ -1#11) :
    key? (UnpackedFloat.unpack Format.binary64 (packComponents Format.binary64 sign e m)) =
      some (sign.apply ↑(if e = 0#11 then m.toNat else rank (2 ^ 52 + m.toNat) (e.toNat - 1))) := by
  have hs : Sign.ofBitVec sign.toBitVec = sign := by cases sign <;> rfl
  rw [unpack_eq_ofFields, unpackSign_packComponents, unpackExponent_packComponents,
    unpackMantissa_packComponents, hs, key?_ofFields sign e m h]

theorem pack_finite (sign : Sign) {m : Nat} (hm : 0 < m) (n : Nat) :
    UnpackedFloat.pack Format.binary64 (.finite sign m ((n : Int) - 1074) hm) =
      if 2 ^ 11 ≤ n + 1 + 1 then packedInfinity Format.binary64 sign
      else if m.log2 + 1 = 53 then
        packComponents Format.binary64 sign (BitVec.ofNat 11 (n + 1)) (BitVec.ofNat 52 m)
      else packComponents Format.binary64 sign 0#11 (BitVec.ofNat 52 m) := by
  have hbias : ((n : Int) - 1074 + 1023 + 52).toNat = n + 1 := by omega
  rw [← hbias]
  rfl

/-- With all its digits a significand is packed without the first, which goes without saying. -/
theorem key?_pack_normal (sign : Sign) {m n : Nat} (hbig : 2 ^ 52 ≤ m) (hlt : m < 2 ^ 53)
    (hn : n + 1 < 2047) :
    key? (UnpackedFloat.unpack Format.binary64
      (packComponents Format.binary64 sign (BitVec.ofNat 11 (n + 1)) (BitVec.ofNat 52 m))) =
      some (sign.apply ↑(rank m n)) := by
  have hone : (BitVec.ofNat 11 (n + 1)).toNat = n + 1 := by
    rw [BitVec.toNat_ofNat, Nat.mod_eq_of_lt (by omega)]
  have hinf : BitVec.ofNat 11 (n + 1) ≠ -1#11 := by
    intro heq
    have := hone.symm.trans (congrArg BitVec.toNat heq)
    change n + 1 = 2047 at this
    omega
  have hzero : BitVec.ofNat 11 (n + 1) ≠ 0#11 := by
    intro heq
    have := hone.symm.trans (congrArg BitVec.toNat heq)
    change n + 1 = 0 at this
    omega
  have hmant : 2 ^ 52 + (BitVec.ofNat 52 m).toNat = m := by
    rw [BitVec.toNat_ofNat]
    omega
  rw [key?_packComponents sign _ _ hinf, if_neg hzero, hmant, hone]
  rfl

theorem key?_pack_subnormal (sign : Sign) {m : Nat} (hm : m < 2 ^ 52) :
    key? (UnpackedFloat.unpack Format.binary64
      (packComponents Format.binary64 sign 0#11 (BitVec.ofNat 52 m))) = some (sign.apply ↑(rank m 0)) := by
  have hmant : (BitVec.ofNat 52 m).toNat = m := by
    rw [BitVec.toNat_ofNat, Nat.mod_eq_of_lt hm]
  rw [key?_packComponents sign _ _ (by decide), if_pos rfl, hmant, rank, Nat.zero_mul, Nat.zero_add]

/-- A magnitude that fits is packed as it is, and one that does not as an infinity. -/
theorem key?_repack_finite (sign : Sign) {m n : Nat} (hm : 0 < m) (h : Stored m n) :
    key? (repack (.finite sign m ((n : Int) - 1074) hm)) =
      some (sign.apply ↑(min (rank m n) rankOfInfinity)) := by
  have hlt := h.lt
  have hnormal := h.normal
  rw [repack, pack_finite]
  by_cases hover : 2 ^ 11 ≤ n + 1 + 1
  · have hmin : min (rank m n) rankOfInfinity = rankOfInfinity := by
      unfold rank rankOfInfinity
      omega
    rw [if_pos hover, hmin]
    cases sign <;> rfl
  · have hmin : min (rank m n) rankOfInfinity = rank m n := by
      unfold rank rankOfInfinity
      omega
    rw [if_neg hover, hmin]
    by_cases hbig : 2 ^ 52 ≤ m
    · have hlog : m.log2 = 52 := (Nat.log2_eq_iff (by omega)).2 ⟨hbig, hlt⟩
      rw [if_pos (by omega)]
      exact key?_pack_normal sign hbig hlt (by omega)
    · have hlog : m.log2 < 52 := (Nat.log2_lt (by omega)).2 (by omega)
      obtain rfl : n = 0 := by omega
      rw [if_neg (by omega)]
      exact key?_pack_subnormal sign (by omega)

/-- Packing a rounded significand. -/
theorem key?_repack_carried (sign : Sign) {amount r t : Nat} (h : Rounds amount r t) :
    key? (repack (carried sign r t)) =
      some (sign.apply ↑(min (rank r t) rankOfInfinity)) := by
  have hle := h.le
  unfold carried
  by_cases h0 : r = 0
  · have ht : t = 0 := by
      rcases Nat.eq_zero_or_pos t with ht | ht
      · exact ht
      · have := h.normal ht
        omega
    rw [dif_pos h0, h0, ht]
    cases sign <;> rfl
  · rw [dif_neg h0]
    by_cases hcarry : r = 2 ^ 53
    · have hrank : rank (2 ^ 52) (t + 1) = rank r t := by
        unfold rank
        omega
      rw [if_pos hcarry, key?_repack_finite sign _ ⟨by decide, fun _ => Nat.le_refl _⟩, hrank]
    · rw [if_neg hcarry]
      exact key?_repack_finite sign _ ⟨by omega, h.normal⟩

/-! ## Order -/

theorem rank_pos {m n : Nat} (hm : 0 < m) : 0 < rank m n := Nat.add_pos_right _ hm

theorem rank_lt_infinity {m n : Nat} (h : Stored m n) (hn : n < 2046) :
    rank m n < rankOfInfinity := by
  have hlt := h.lt
  unfold rank rankOfInfinity
  omega

/-- Exponents are compared first, then significands. -/
theorem compare_then_eq {m n p q : Nat} (h : Stored m n) (h' : Stored p q) :
    (compare ((n : Int) - 1074) ((q : Int) - 1074)).then (compare m p) =
      compare (rank m n) (rank p q) := by
  rcases lt_trichotomy n q with hnq | rfl | hnq
  · have hexp : compare ((n : Int) - 1074) ((q : Int) - 1074) = .lt := compare_lt_iff_lt.2 (by omega)
    rw [hexp, compare_lt_iff_lt.2 ((rank_lt_iff h h').2 (.inl hnq))]
    rfl
  · have hexp : compare ((n : Int) - 1074) ((n : Int) - 1074) = .eq := compare_eq_iff_eq.2 rfl
    have hrank : compare (rank m n) (rank p n) = compare m p := by
      unfold rank
      rcases lt_trichotomy m p with hmp | rfl | hmp
      · rw [compare_lt_iff_lt.2 hmp, compare_lt_iff_lt.2 (by omega)]
      · rw [compare_eq_iff_eq.2 rfl, compare_eq_iff_eq.2 rfl]
      · rw [compare_gt_iff_gt.2 hmp, compare_gt_iff_gt.2 (by omega)]
    rw [hexp, hrank]
    rfl
  · have hexp : compare ((n : Int) - 1074) ((q : Int) - 1074) = .gt := compare_gt_iff_gt.2 (by omega)
    rw [hexp, compare_gt_iff_gt.2 ((rank_lt_iff h' h).2 (.inl hnq))]
    rfl

theorem compare_apply_positive (m n : Nat) :
    compare (Sign.positive.apply (m : Int)) (Sign.positive.apply (n : Int)) = compare m n := by
  change compare (m : Int) (n : Int) = compare m n
  rcases lt_trichotomy m n with h | rfl | h
  · rw [compare_lt_iff_lt.2 h, compare_lt_iff_lt.2 (Int.ofNat_lt.2 h)]
  · rw [compare_eq_iff_eq.2 rfl, compare_eq_iff_eq.2 rfl]
  · rw [compare_gt_iff_gt.2 h, compare_gt_iff_gt.2 (Int.ofNat_lt.2 h)]

/-- Of two magnitudes below zero the larger is the smaller number. -/
theorem compare_apply_negative (m n : Nat) :
    compare (Sign.negative.apply (m : Int)) (Sign.negative.apply (n : Int)) =
      (compare m n).swap := by
  change compare (-(m : Int)) (-(n : Int)) = (compare m n).swap
  rcases lt_trichotomy m n with h | rfl | h
  · rw [compare_lt_iff_lt.2 h, compare_gt_iff_gt.2 (Int.neg_lt_neg (Int.ofNat_lt.2 h))]
    rfl
  · rw [compare_eq_iff_eq.2 rfl, compare_eq_iff_eq.2 rfl]
    rfl
  · rw [compare_gt_iff_gt.2 h, compare_lt_iff_lt.2 (Int.neg_lt_neg (Int.ofNat_lt.2 h))]
    rfl

/-- Finite numbers are compared by rank: on one side of zero by magnitude, across it by sign. -/
theorem compare_finite_finite {s s' : Sign} {m n p q : Nat} (hm : 0 < m) (hp : 0 < p) (h : Stored m n)
    (h' : Stored p q) :
    (UnpackedFloat.finite s m ((n : Int) - 1074) hm).compare (.finite s' p ((q : Int) - 1074) hp) =
      some (compare (s.apply ↑(rank m n)) (s'.apply ↑(rank p q))) := by
  have hpos := rank_pos (n := n) hm
  have hpos' := rank_pos (n := q) hp
  have hthen := compare_then_eq h h'
  cases s with
  | negative =>
    cases s' with
    | negative =>
      change some ((compare ((n : Int) - 1074) ((q : Int) - 1074)).then (compare m p)).swap = _
      rw [hthen, ← compare_apply_negative]
    | positive =>
      rw [compare_lt_iff_lt.2 (show Sign.negative.apply ↑(rank m n) < Sign.positive.apply ↑(rank p q) by
        simp only [Sign.apply]; omega)]
      rfl
  | positive =>
    cases s' with
    | negative =>
      rw [compare_gt_iff_gt.2 (show Sign.negative.apply ↑(rank p q) < Sign.positive.apply ↑(rank m n) by
        simp only [Sign.apply]; omega)]
      rfl
    | positive =>
      change some ((compare ((n : Int) - 1074) ((q : Int) - 1074)).then (compare m p)) = _
      rw [hthen, ← compare_apply_positive]

/-- Comparing numbers is comparing their ranks. -/
theorem compare_eq {u v : UnpackedFloat} (hu : Proper u) (hv : Proper v) :
    u.compare v = (key? u).bind fun k => (key? v).map (compare k) := by
  have hinf : 0 < rankOfInfinity := by decide
  have lt {k l : Int} (h : k < l) : some Ordering.lt = some (compare k l) := by
    rw [compare_lt_iff_lt.2 h]
  have gt {k l : Int} (h : l < k) : some Ordering.gt = some (compare k l) := by
    rw [compare_gt_iff_gt.2 h]
  have eq {k l : Int} (h : k = l) : some Ordering.eq = some (compare k l) := by
    rw [compare_eq_iff_eq.2 h]
  cases u with
  | notANumber => rfl
  | infinity s =>
    cases v with
    | notANumber => cases s <;> rfl
    | infinity s' =>
      cases s <;> cases s'
      · exact eq rfl
      · exact lt (by simp only [Sign.apply]; omega)
      · exact gt (by simp only [Sign.apply]; omega)
      · exact eq rfl
    | zero s' =>
      cases s
      · exact lt (by simp only [Sign.apply]; omega)
      · exact gt (by simp only [Sign.apply]; omega)
    | finite s' p f hp =>
      obtain ⟨q, rfl, hs', hq⟩ := hv
      have hlt := rank_lt_infinity hs' hq
      rw [key?_finite]
      cases s
      · exact lt (by cases s' <;> simp only [Sign.apply] <;> omega)
      · exact gt (by cases s' <;> simp only [Sign.apply] <;> omega)
  | zero s =>
    cases v with
    | notANumber => rfl
    | infinity s' =>
      cases s'
      · exact gt (by simp only [Sign.apply]; omega)
      · exact lt (by simp only [Sign.apply]; omega)
    | zero s' => exact eq rfl
    | finite s' p f hp =>
      obtain ⟨q, rfl, hs', hq⟩ := hv
      have hpos := rank_pos (n := q) hp
      rw [key?_finite]
      cases s'
      · exact gt (by simp only [Sign.apply]; omega)
      · exact lt (by simp only [Sign.apply]; omega)
  | finite s m e hm =>
    obtain ⟨n, rfl, hs, hn⟩ := hu
    have hlt := rank_lt_infinity hs hn
    have hpos := rank_pos (n := n) hm
    rw [key?_finite]
    cases v with
    | notANumber => cases s <;> rfl
    | infinity s' =>
      cases s'
      · cases s
        · exact gt (by simp only [Sign.apply]; omega)
        · exact gt (by simp only [Sign.apply]; omega)
      · cases s
        · exact lt (by simp only [Sign.apply]; omega)
        · exact lt (by simp only [Sign.apply]; omega)
    | zero s' =>
      cases s
      · exact lt (by simp only [Sign.apply]; omega)
      · exact gt (by simp only [Sign.apply]; omega)
    | finite s' p f hp =>
      obtain ⟨q, rfl, hs', hq⟩ := hv
      rw [key?_finite, compare_finite_finite hm hp hs hs']
      rfl

/-- Numbers compare as their keys do. -/
theorem compare_eq_lt_iff {u v : UnpackedFloat} (hu : Proper u) (hv : Proper v) :
    u.compare v = some .lt ↔ ∃ k l, key? u = some k ∧ key? v = some l ∧ k < l := by
  rw [compare_eq hu hv]
  simp only [Option.bind_eq_some_iff, Option.map_eq_some_iff, compare_lt_iff_lt, exists_and_left]

theorem le_iff_key? {u v : UnpackedFloat} (hu : Proper u) (hv : Proper v) :
    u.le v = true ↔ ∃ k l, key? u = some k ∧ key? v = some l ∧ k ≤ l := by
  rw [UnpackedFloat.le, compare_eq hu hv]
  simp only [Option.any_eq_true, Option.bind_eq_some_iff, Option.map_eq_some_iff]
  constructor
  · rintro ⟨_, ⟨k, hk, l, hl, rfl⟩, hle⟩
    exact ⟨k, l, hk, hl, Std.isLE_compare.1 hle⟩
  · rintro ⟨k, l, hk, hl, hle⟩
    exact ⟨_, ⟨k, hk, l, hl, rfl⟩, Std.isLE_compare.2 hle⟩

/-! ## Sums -/

theorem key?_repack_notANumber : key? (repack .notANumber) = none := by decide

theorem key?_repack_infinity (s : Sign) :
    key? (repack (.infinity s)) = some (s.apply rankOfInfinity) := by cases s <;> decide

theorem key?_repack_zero (s : Sign) : key? (repack (.zero s)) = some 0 := by cases s <;> decide

/-- Summands are brought to their smaller exponent before they are added. -/
theorem add_finite_eq (s s' : Sign) {m p : Nat} {e f : Int} (hm : 0 < m) (hp : 0 < p) :
    UnpackedFloat.add Format.binary64 (.finite s m e hm) (.finite s' p f hp) =
      UnpackedFloat.normalize Format.binary64
        (s.apply ↑(m <<< (e - min e f).toNat) + s'.apply ↑(p <<< (f - min e f).toNat)) (min e f)
        .positive := rfl

theorem add_finite (s : Sign) {m n p q : Nat} (hm : 0 < m) (hp : 0 < p) :
    UnpackedFloat.add Format.binary64 (.finite s m ((n : Int) - 1074) hm)
      (.finite .positive p ((q : Int) - 1074) hp) =
      UnpackedFloat.normalize Format.binary64
        (s.apply ↑(m <<< (n - min n q)) + ↑(p <<< (q - min n q))) (((min n q : Nat) : Int) - 1074)
        .positive := by
  have hmin : min ((n : Int) - 1074) ((q : Int) - 1074) = ((min n q : Nat) : Int) - 1074 := by omega
  have hn : ((n : Int) - 1074 - (((min n q : Nat) : Int) - 1074)).toNat = n - min n q := by omega
  have hq : ((q : Int) - 1074 - (((min n q : Nat) : Int) - 1074)).toNat = q - min n q := by omega
  rw [add_finite_eq, hmin, hn, hq]
  rfl

theorem units_eq (m : Nat) {n i : Nat} (h : i ≤ n) : m <<< (n - i) * 2 ^ i = m * 2 ^ n := by
  rw [Nat.shiftLeft_eq, mul_assoc, ← pow_add, Nat.sub_add_cancel h]

/-- A sum above zero is rounded to a number next to it. -/
theorem key?_normalize_of_pos {z : Int} (hz : 0 < z) (i : Nat) (s : Sign) :
    ∃ r t, Rounds (z.toNat * 2 ^ i) r t ∧
      key? (repack (UnpackedFloat.normalize Format.binary64 z ((i : Int) - 1074) s)) =
        some (Sign.positive.apply ↑(min (rank r t) rankOfInfinity)) := by
  obtain ⟨r, t, hr, hround⟩ := exists_round .positive (show 0 < z.toNat by omega) i
  refine ⟨r, t, hr, ?_⟩
  unfold UnpackedFloat.normalize
  rw [compare_gt_iff_gt.2 hz]
  exact hround ▸ key?_repack_carried .positive hr

/-- A sum below zero is rounded to a number next to it. -/
theorem key?_normalize_of_neg {z : Int} (hz : z < 0) (i : Nat) (s : Sign) :
    ∃ r t, Rounds ((-z).toNat * 2 ^ i) r t ∧
      key? (repack (UnpackedFloat.normalize Format.binary64 z ((i : Int) - 1074) s)) =
        some (Sign.negative.apply ↑(min (rank r t) rankOfInfinity)) := by
  obtain ⟨r, t, hr, hround⟩ := exists_round .negative (show 0 < (-z).toNat by omega) i
  refine ⟨r, t, hr, ?_⟩
  unfold UnpackedFloat.normalize
  rw [compare_lt_iff_lt.2 hz]
  exact hround ▸ key?_repack_carried .negative hr

/-- Adding a positive finite number does not lead to a smaller one. -/
theorem key?_add {u : UnpackedFloat} (hu : Proper u) {p : Nat} {f : Int} (hp : 0 < p)
    (hv : Proper (.finite .positive p f hp)) :
    (key? u = none ∧
      key? (repack (UnpackedFloat.add Format.binary64 u (.finite .positive p f hp))) = none) ∨
    ∃ k l, key? u = some k ∧ k ≤ l ∧
      key? (repack (UnpackedFloat.add Format.binary64 u (.finite .positive p f hp))) = some l := by
  obtain ⟨q, rfl, hq, hqmax⟩ := hv
  cases u with
  | notANumber => exact .inl ⟨rfl, key?_repack_notANumber⟩
  | infinity s => exact .inr ⟨_, _, rfl, le_refl _, key?_repack_infinity s⟩
  | zero s =>
    refine .inr ⟨0, _, rfl, ?_, key?_repack_finite .positive hp hq⟩
    exact Int.natCast_nonneg _
  | finite s m e hm =>
    right
    obtain ⟨n, rfl, hn, hnmax⟩ := hu
    have hlt := rank_lt_infinity hn hnmax
    have hunits : m <<< (n - min n q) * 2 ^ min n q = m * 2 ^ n := units_eq m (min_le_left n q)
    have hpos : 0 < p <<< (q - min n q) := by
      rw [Nat.shiftLeft_eq]
      exact Nat.mul_pos hp (Nat.two_pow_pos _)
    rw [add_finite s hm hp, key?_finite]
    generalize m <<< (n - min n q) = a at hunits
    generalize p <<< (q - min n q) = b at hpos
    generalize min n q = i at hunits
    cases s with
    | positive =>
      have hz : 0 < Sign.apply .positive (a : Int) + b := by simp only [Sign.apply]; omega
      obtain ⟨r, t, hr, hkey⟩ := key?_normalize_of_pos hz i .positive
      have hrank : rank m n ≤ rank r t := by
        apply hr.rank_le hn
        rw [← hunits]
        exact Nat.mul_le_mul_right _ (by simp only [Sign.apply]; omega)
      refine ⟨_, _, rfl, ?_, hkey⟩
      exact Int.ofNat_le.2 (le_min hrank hlt.le)
    | negative =>
      rcases lt_trichotomy (Sign.apply .negative (a : Int) + b) 0 with hz | hz | hz
      · obtain ⟨r, t, hr, hkey⟩ := key?_normalize_of_neg hz i .positive
        have hrank : rank r t ≤ rank m n := by
          apply hr.le_rank hn
          rw [← hunits]
          exact Nat.mul_le_mul_right _ (by simp only [Sign.apply]; omega)
        refine ⟨_, _, rfl, ?_, hkey⟩
        exact Int.neg_le_neg (Int.ofNat_le.2 ((min_le_left _ _).trans hrank))
      · rw [hz]
        refine ⟨_, 0, rfl, ?_, key?_repack_zero _⟩
        exact Int.neg_nonpos_of_nonneg (Int.natCast_nonneg _)
      · obtain ⟨r, t, hr, hkey⟩ := key?_normalize_of_pos hz i .positive
        refine ⟨_, _, rfl, ?_, hkey⟩
        exact (Int.neg_nonpos_of_nonneg (Int.natCast_nonneg _)).trans (Int.natCast_nonneg _)

/-! ## Results that are numbers -/

/-- What is rounded is a number. -/
theorem exists_key?_normalize (z : Int) (i : Nat) (s : Sign) :
    ∃ k, key? (repack (UnpackedFloat.normalize Format.binary64 z ((i : Int) - 1074) s)) =
      some k := by
  rcases lt_trichotomy z 0 with hz | rfl | hz
  · obtain ⟨r, t, -, hkey⟩ := key?_normalize_of_neg hz i s
    exact ⟨_, hkey⟩
  · exact ⟨0, key?_repack_zero s⟩
  · obtain ⟨r, t, -, hkey⟩ := key?_normalize_of_pos hz i s
    exact ⟨_, hkey⟩

/-- What comes out of its bits goes back into them unchanged. -/
theorem key?_repack {u : UnpackedFloat} (hu : Proper u) : key? (repack u) = key? u := by
  cases u with
  | notANumber => exact key?_repack_notANumber
  | infinity s => exact key?_repack_infinity s
  | zero s => exact key?_repack_zero s
  | finite s m e hm =>
    obtain ⟨n, rfl, hn, hmax⟩ := hu
    rw [key?_repack_finite s hm hn, key?_finite, min_eq_left (rank_lt_infinity hn hmax).le]

/-- A finite summand makes no number less of one. -/
theorem exists_key?_add {u v : UnpackedFloat} (hu : Proper u) (hv : Proper v)
    (hf : v.isFinite = true) {k : Int} (hk : key? u = some k) :
    ∃ l, key? (repack (UnpackedFloat.add Format.binary64 u v)) = some l := by
  cases v with
  | notANumber | infinity s => cases hf
  | zero s =>
    cases u with
    | notANumber => cases hk
    | infinity s' => exact ⟨_, key?_repack_infinity s'⟩
    | zero s' => exact ⟨0, by cases s <;> cases s' <;> decide⟩
    | finite s' m e hm => exact ⟨k, (key?_repack hu).trans hk⟩
  | finite s p f hp =>
    cases u with
    | notANumber => cases hk
    | infinity s' => exact ⟨_, key?_repack_infinity s'⟩
    | zero s' => exact ⟨_, key?_repack hv⟩
    | finite s' m e hm =>
      obtain ⟨n, rfl, -, -⟩ := hu
      obtain ⟨q, rfl, -, -⟩ := hv
      have hmin : min ((n : Int) - 1074) ((q : Int) - 1074) = ((min n q : Nat) : Int) - 1074 := by
        omega
      rw [add_finite_eq, hmin]
      exact exists_key?_normalize _ _ _

theorem sub_eq_add_neg (u v : UnpackedFloat) :
    UnpackedFloat.sub Format.binary64 u v = UnpackedFloat.add Format.binary64 u v.neg := by
  cases u with
  | notANumber => rfl
  | infinity s => cases v <;> rfl
  | zero s => cases v <;> rfl
  | finite s m e hm =>
    cases v with
    | finite s' p f hp =>
      have hneg (a b : Int) : a - Sign.apply s' b = a + Sign.apply (-s') b := by
        cases s' with
        | negative => exact Int.sub_neg a b
        | positive => rfl
      exact congrArg (fun a => UnpackedFloat.normalize Format.binary64 a (min e f) .positive)
        (hneg _ _)
    | _ => rfl

/-- A finite number taken from a number gives one. -/
theorem exists_key?_sub {u v : UnpackedFloat} (hu : Proper u) (hv : Proper v)
    (hf : v.isFinite = true) {k : Int} (hk : key? u = some k) :
    ∃ l, key? (repack (UnpackedFloat.sub Format.binary64 u v)) = some l := by
  rw [sub_eq_add_neg]
  cases v with
  | notANumber | infinity s => cases hf
  | zero s => exact exists_key?_add hu trivial rfl hk
  | finite s p f hp =>
    have hneg : Proper (.finite (-s) p f hp) := hv
    exact exists_key?_add hu hneg rfl hk

end Vivarium.Binary64
