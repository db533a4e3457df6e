import Vivarium.Proofs.Scalar.Graded
/-!
# Tags within their width

Every tag made here keeps to the low sixteen bits of its word, and then no two tags differ in more bits
than that, a distance is a fraction of one, and complements are mutual. A word with any higher bit is
a tag too, but not one that could be made: each of these laws fails for it.
-/
namespace Vivarium

namespace Tag

/-! ## Counting ones -/

theorem ones_succ (n : Nat) (w : UInt64) : ones (n + 1) w = w.toNat % 2 + ones n (w >>> 1) := by
  rw [ones]
  split
  · next hw =>
    subst hw
    simp
  · rw [UInt64.toNat_and, UInt64.toNat_one, Nat.and_one_is_mod]

theorem toNat_half (w : UInt64) : (w >>> 1).toNat = w.toNat / 2 := by
  rw [UInt64.toNat_shiftRight]
  exact Nat.shiftRight_one _

theorem ones_le_of_lt (n : Nat) {k : Nat} {w : UInt64} (h : w.toNat < 2 ^ k) : ones n w ≤ k := by
  induction n generalizing k w with
  | zero => exact Nat.zero_le k
  | succ n ih =>
    cases k with
    | zero =>
      obtain rfl : w = 0 := UInt64.toNat_inj.1 (Nat.lt_one_iff.1 h)
      exact Nat.le_of_eq (ones_zero _)
    | succ k =>
      have hrest : ones n (w >>> 1) ≤ k := by
        apply ih
        rw [toNat_half]
        omega
      rw [ones_succ]
      omega

/-- A word whose lowest `k` bits are all set, and some bit above them, has more than `k` ones. -/
theorem lt_ones {n k : Nat} {w : UInt64} (hlow : w.toNat % 2 ^ k = 2 ^ k - 1)
    (hhigh : 2 ^ k ≤ w.toNat) (h : w.toNat < 2 ^ n) : k < ones n w := by
  induction n generalizing k w with
  | zero =>
    have hpos := Nat.two_pow_pos k
    omega
  | succ n ih =>
    have hhalf := toNat_half w
    rw [ones_succ]
    cases k with
    | zero =>
      by_cases hw : w.toNat % 2 = 0
      · have hrest : 0 < ones n (w >>> 1) := by
          apply ih <;> rw [hhalf] <;> omega
        omega
      · omega
    | succ k =>
      have hpow : 2 ^ (k + 1) = 2 * 2 ^ k := Nat.pow_succ'
      have hmod : w.toNat % 2 ^ (k + 1) = w.toNat % 2 + 2 * (w.toNat / 2 % 2 ^ k) := by
        rw [hpow, Nat.mod_mul]
      have hrest : k < ones n (w >>> 1) := by
        apply ih <;> rw [hhalf] <;> omega
      omega

/-! ## Narrow tags -/

def Narrow (t : Tag) : Prop := t.bits.toNat < 2 ^ width

instance (t : Tag) : Decidable t.Narrow := inferInstanceAs (Decidable (_ < _))

/-- The tags that can be made: of any word, by a draw, by default, and from another tag. -/
inductive Made : Tag → Prop
  | new (word : UInt64) : Made (new word)
  | random (g : Generator) : Made (random g).1
  | default : Made default
  | toggled (t : Tag) : Made t.toggled

theorem narrow_new (word : UInt64) : (new word).Narrow := by
  have hle : (word &&& 0xFFFF).toNat ≤ 0xFFFF := by
    rw [UInt64.toNat_and]
    exact Nat.and_le_right
  exact Nat.lt_succ_of_le hle

/-- Whatever is made as a tag is narrow. -/
theorem Made.narrow {t : Tag} (h : t.Made) : t.Narrow := by
  cases h with
  | new word => exact narrow_new word
  | random g => exact narrow_new g.next.1
  | default => exact Nat.two_pow_pos width
  | toggled t => exact narrow_new (~~~t.bits)

theorem new_bits_eq_iff {t : Tag} : new t.bits = t ↔ t.Narrow := by
  constructor
  · intro h
    rw [← h]
    exact narrow_new t.bits
  · intro h
    have hbits : t.bits &&& 0xFFFF = t.bits := by
      apply UInt64.toNat_inj.1
      rw [UInt64.toNat_and]
      exact (Nat.and_two_pow_sub_one_eq_mod _ width).trans (Nat.mod_eq_of_lt h)
    exact congrArg Tag.mk hbits

/-- A narrow tag is one that can be made. -/
theorem made_iff_narrow {t : Tag} : t.Made ↔ t.Narrow :=
  ⟨Made.narrow, fun h => new_bits_eq_iff.2 h ▸ Made.new t.bits⟩

/-! ## Complements -/

/-- Toggled twice, a tag loses the bits beyond the width. -/
theorem toggled_toggled (t : Tag) : t.toggled.toggled = new t.bits := by
  have hbits : ~~~(~~~t.bits &&& 0xFFFF) &&& 0xFFFF = t.bits &&& 0xFFFF := by
    apply UInt64.toBitVec_inj.1
    ext i hi
    simp only [UInt64.toBitVec_and, UInt64.toBitVec_not, BitVec.getElem_and, BitVec.getElem_not]
    cases t.bits.toBitVec[i] <;> simp
  exact congrArg Tag.mk hbits

theorem toggled_toggled_eq_iff {t : Tag} : t.toggled.toggled = t ↔ t.Narrow := by
  rw [toggled_toggled, new_bits_eq_iff]

/-- A tag and its complement differ in all bits of the width, and in the higher bits of the tag. -/
theorem xor_toggled (t : Tag) : t.bits ^^^ t.toggled.bits = t.bits ||| 0xFFFF := by
  change t.bits ^^^ (~~~t.bits &&& 0xFFFF) = t.bits ||| 0xFFFF
  apply UInt64.toBitVec_inj.1
  ext i hi
  simp only [UInt64.toBitVec_xor, UInt64.toBitVec_and, UInt64.toBitVec_not, UInt64.toBitVec_or,
    BitVec.getElem_xor, BitVec.getElem_and, BitVec.getElem_not, BitVec.getElem_or]
  cases t.bits.toBitVec[i] <;> simp

/-- A narrow tag differs from its opposite in every bit. -/
theorem hamming_toggled_of_narrow {t : Tag} (h : t.Narrow) : t.hamming t.toggled = width := by
  have hbits : t.bits ||| 0xFFFF = 0xFFFF := by
    apply UInt64.toNat_inj.1
    have hle : 0xFFFF ≤ t.bits.toNat ||| 0xFFFF := Nat.right_le_or
    have hlt : t.bits.toNat ||| 0xFFFF < 2 ^ width := Nat.or_lt_two_pow h (by decide)
    rw [UInt64.toNat_or]
    exact Nat.le_antisymm (Nat.le_of_lt_succ hlt) hle
  rw [hamming, xor_toggled, hbits]
  decide

/-- A tag that is not narrow differs from its opposite in bits beyond the width as well. -/
theorem width_lt_hamming_toggled {t : Tag} (h : ¬ t.Narrow) : width < t.hamming t.toggled := by
  have hword : (t.bits ||| 0xFFFF).toNat = t.bits.toNat ||| 0xFFFF := UInt64.toNat_or _ _
  rw [hamming, xor_toggled]
  apply lt_ones
  · have hle : 0xFFFF ≤ t.bits.toNat % 2 ^ width ||| 0xFFFF := Nat.right_le_or
    have hlt : t.bits.toNat % 2 ^ width ||| 0xFFFF < 2 ^ width :=
      Nat.or_lt_two_pow (Nat.mod_lt _ (Nat.two_pow_pos _)) (by decide)
    rw [hword, Nat.or_mod_two_pow]
    exact Nat.le_antisymm (Nat.le_of_lt_succ hlt) hle
  · rw [hword]
    exact Nat.le_trans (Nat.le_of_not_lt h) Nat.left_le_or
  · exact UInt64.toNat_lt _

theorem hamming_toggled_eq_iff {t : Tag} : t.hamming t.toggled = width ↔ t.Narrow := by
  constructor
  · intro h
    by_contra hwide
    exact absurd h (Nat.ne_of_gt (width_lt_hamming_toggled hwide))
  · exact hamming_toggled_of_narrow

/-! ## Distances -/

/-- Narrow tags differ in no more bits than they have. -/
theorem hamming_le_width {s t : Tag} (hs : s.Narrow) (ht : t.Narrow) : s.hamming t ≤ width := by
  apply ones_le_of_lt
  rw [UInt64.toNat_xor]
  exact Nat.xor_lt_two_pow hs ht

/-- The bound on differing bits holds against all narrow tags for narrow tags only. -/
theorem hamming_le_width_iff {t : Tag} :
    (∀ s : Tag, s.Narrow → t.hamming s ≤ width) ↔ t.Narrow := by
  constructor
  · intro h
    by_contra hwide
    exact absurd (h t.toggled (Made.toggled t).narrow)
      (Nat.not_le_of_lt (width_lt_hamming_toggled hwide))
  · exact fun ht s hs => hamming_le_width ht hs

set_option maxRecDepth 10000 in
/-- Looked up for each count of differing bits. -/
theorem ratio_width_range : ∀ h < 65, (0 : Float) ≤ Scalar.ratio h width ∧
    ((Scalar.ratio h width : Float) ≤ 1 ↔ h ≤ width) := by decide +kernel

theorem distance_nonneg (s t : Tag) : (0 : Float) ≤ s.distance t :=
  (ratio_width_range _ (Nat.lt_succ_of_le (hamming_le s t))).1

theorem distance_le_one_iff {s t : Tag} : (s.distance t : Float) ≤ 1 ↔ s.hamming t ≤ width :=
  (ratio_width_range _ (Nat.lt_succ_of_le (hamming_le s t))).2

/-- Each law that tags keep with the tags that can be made holds for narrow tags, and for no other. -/
structure LawfulIffNarrow (t : Tag) : Prop where
  made : t.Made ↔ t.Narrow
  hamming : (∀ s : Tag, s.Made → t.hamming s ≤ width) ↔ t.Narrow
  distance : (∀ s : Tag, s.Made → 0 ≤ (t.distance s : Float) ∧ (t.distance s : Float) ≤ 1) ↔ t.Narrow
  involution : t.toggled.toggled = t ↔ t.Narrow
  opposite : t.hamming t.toggled = width ↔ t.Narrow

theorem lawfulIffNarrow (t : Tag) : t.LawfulIffNarrow where
  made := made_iff_narrow
  hamming := by simp only [made_iff_narrow, hamming_le_width_iff]
  distance := by
    simp only [distance_nonneg, distance_le_one_iff, true_and, made_iff_narrow, hamming_le_width_iff]
  involution := toggled_toggled_eq_iff
  opposite := hamming_toggled_eq_iff

end Tag

end Vivarium
