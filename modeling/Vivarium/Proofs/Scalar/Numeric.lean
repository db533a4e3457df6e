import Mathlib.Algebra.Order.Ring.Rat
import Vivarium.Proofs.Scalar.Ordered
/-!
# Amounts that are numbers

What is not a number is not even as much as itself. Among the other amounts any two can be compared, and
they stay numbers when a finite amount is added or taken away. So it is with exact amounts and with binary
floating point, where a sum that is too large is an infinity and still a number.
-/
namespace Vivarium

variable {α : Type} [Scalar α]

def Scalar.IsNumber (x : α) : Prop := x ≤ x

class Scalar.Numeric (α : Type) [Scalar α] : Prop where
  finite_zero : Scalar.isFinite (0 : α) = true
  number_of_finite : ∀ {x : α}, Scalar.isFinite x = true → Scalar.IsNumber x
  le_trans : ∀ {x y z : α}, x ≤ y → y ≤ z → x ≤ z
  le_total : ∀ {x y : α}, Scalar.IsNumber x → Scalar.IsNumber y → x ≤ y ∨ y ≤ x
  le_of_not_lt : ∀ {x y : α}, Scalar.IsNumber x → Scalar.IsNumber y → ¬y < x → x ≤ y
  finite_of_le : ∀ {x y : α}, Scalar.isFinite x = true → 0 ≤ y → y ≤ x → Scalar.isFinite y = true
  number_add : ∀ {x a : α}, Scalar.IsNumber x → Scalar.isFinite a = true → Scalar.IsNumber (x + a)
  number_sub : ∀ {x a : α}, Scalar.IsNumber x → Scalar.isFinite a = true → Scalar.IsNumber (x - a)
  /-- Raising a bar does not lower it. -/
  le_add : ∀ {x a : α}, Scalar.isFinite x = true → Scalar.isFinite a = true → 0 ≤ a → x ≤ x + a

namespace Scalar

variable [Scalar.Numeric α]

theorem number_zero : IsNumber (0 : α) := Numeric.number_of_finite Numeric.finite_zero

/-- What is not a number counts as zero here. -/
theorem nonneg_positivePart (x : α) : 0 ≤ positivePart x := by
  unfold positivePart
  split
  · next h => exact h
  · exact number_zero

theorem finite_positivePart {x : α} (h : isFinite x = true) : isFinite (positivePart x) = true := by
  unfold positivePart
  split
  · exact h
  · exact Numeric.finite_zero

theorem number_positivePart {x : α} (h : IsNumber x) : IsNumber (positivePart x) := by
  unfold positivePart
  split
  · exact h
  · exact number_zero

omit [Scalar.Numeric α] in
theorem positivePart_of_nonneg {x : α} (h : 0 ≤ x) : positivePart x = x := if_pos h

/-- The lesser of two amounts is finite if the first is and the second is not negative. -/
theorem finite_least {x y : α} (hx : isFinite x = true) (hy : IsNumber y) (h0 : 0 ≤ y) :
    isFinite (least x y) = true := by
  unfold least
  split
  · exact hx
  · next hle =>
    rcases Numeric.le_total (Numeric.number_of_finite hx) hy with h | h
    · exact absurd h hle
    · exact Numeric.finite_of_le hx h0 h

/-- What a request asks for, or a reserve is set to, is finite and not negative. -/
theorem finite_nonneg_asked (x : α) :
    isFinite (if isFinite x then positivePart x else 0) = true ∧
      0 ≤ (if isFinite x then positivePart x else 0) := by
  split
  · next h => exact ⟨finite_positivePart h, nonneg_positivePart x⟩
  · exact ⟨Numeric.finite_zero, number_zero⟩

end Scalar

instance : Scalar.Numeric Rat where
  finite_zero := rfl
  number_of_finite _ := Rat.le_refl
  le_trans := Rat.le_trans
  le_total _ _ := Rat.le_total
  le_of_not_lt _ _ := Rat.not_lt.1
  finite_of_le _ _ _ := rfl
  number_add _ _ := Rat.le_refl
  number_sub _ _ := Rat.le_refl
  le_add _ _ h := le_add_of_nonneg_right h

namespace Binary64

open Float.Model Float.Model.UnpackedFloat

variable {x y a : Float}

theorem le_iff (x y : Float) :
    x ≤ y ↔ ∃ k l, place? x = some k ∧ place? y = some l ∧ k ≤ l := by
  rw [place?, place?, ← le_iff_key? (proper_toModel x) (proper_toModel y)]
  constructor
  · exact fun h => of_decide_eq_true h
  · exact fun h => decide_eq_true h

theorem number_iff (x : Float) : Scalar.IsNumber x ↔ ∃ k, place? x = some k := by
  constructor
  · intro h
    obtain ⟨k, -, hk, -⟩ := (le_iff x x).1 h
    exact ⟨k, hk⟩
  · rintro ⟨k, hk⟩
    exact (le_iff x x).2 ⟨k, k, hk, hk, Int.le_refl k⟩

/-- The finite numbers are those between the infinities. -/
theorem finite_iff (x : Float) :
    x.isFinite = true ↔ ∃ k, place? x = some k ∧ -rankOfInfinity < k ∧ k < rankOfInfinity := by
  have hx := proper_toModel x
  change x.toModel.unpack.isFinite = true ↔ ∃ k, key? x.toModel.unpack = some k ∧ _
  cases h : x.toModel.unpack with
  | notANumber =>
    refine iff_of_false Bool.false_ne_true ?_
    rintro ⟨k, hk, -⟩
    cases hk
  | infinity s =>
    refine iff_of_false Bool.false_ne_true ?_
    rintro ⟨k, hk, hlow, hhigh⟩
    have hinf : s.apply ↑rankOfInfinity = k := Option.some.inj hk
    cases s <;> simp only [Sign.apply] at hinf <;> omega
  | zero s => exact iff_of_true rfl ⟨0, rfl, by decide, by decide⟩
  | finite s m e hm =>
    rw [h] at hx
    obtain ⟨n, rfl, hs, hn⟩ := hx
    have hlt := rank_lt_infinity hs hn
    rw [key?_finite]
    refine iff_of_true rfl ⟨_, rfl, ?_, ?_⟩
    · cases s <;> simp only [Sign.apply] <;> omega
    · cases s <;> simp only [Sign.apply] <;> omega

/-- A finite number added to a number gives one. -/
theorem exists_place?_add (ha : a.isFinite = true) {k : Int} (hx : place? x = some k) :
    ∃ l, place? (x + a) = some l :=
  exists_key?_add (proper_toModel x) (proper_toModel a) ha hx

theorem exists_place?_sub (ha : a.isFinite = true) {k : Int} (hx : place? x = some k) :
    ∃ l, place? (x - a) = some l :=
  exists_key?_sub (proper_toModel x) (proper_toModel a) ha hx

/-- Adding nothing does not move a number. -/
theorem place?_add_zero (x : Float) (ha : place? a = some 0) : place? (x + a) = place? x := by
  have hx := proper_toModel x
  have hproper := proper_toModel a
  change key? a.toModel.unpack = some 0 at ha
  change key? (repack (UnpackedFloat.add Format.binary64 x.toModel.unpack a.toModel.unpack)) =
    key? x.toModel.unpack
  cases hu : a.toModel.unpack with
  | notANumber =>
    rw [hu] at ha
    cases ha
  | infinity s =>
    rw [hu] at ha
    cases s <;> cases ha
  | finite s m e hm =>
    rw [hu] at ha hproper
    obtain ⟨n, rfl, -, -⟩ := hproper
    have hpos := rank_pos (n := n) hm
    rw [key?_finite] at ha
    have hzero := Option.some.inj ha
    cases s <;> simp only [Sign.apply] at hzero <;> omega
  | zero s =>
    rw [← key?_repack hx]
    cases x.toModel.unpack with
    | notANumber => rfl
    | infinity s' => rfl
    | zero s' => cases s <;> cases s' <;> decide
    | finite s' m e hm => rfl

end Binary64

instance : Scalar.Numeric Float where
  finite_zero := by decide +kernel
  number_of_finite := by
    intro x hx
    obtain ⟨k, hk, -⟩ := (Binary64.finite_iff x).1 hx
    exact (Binary64.number_iff x).2 ⟨k, hk⟩
  le_trans := by
    intro x y z hxy hyz
    obtain ⟨k, l, hk, hl, hkl⟩ := (Binary64.le_iff x y).1 hxy
    obtain ⟨l', m, hl', hm, hlm⟩ := (Binary64.le_iff y z).1 hyz
    obtain rfl := Option.some.inj (hl.symm.trans hl')
    exact (Binary64.le_iff x z).2 ⟨k, m, hk, hm, hkl.trans hlm⟩
  le_total := by
    intro x y hx hy
    obtain ⟨k, hk⟩ := (Binary64.number_iff x).1 hx
    obtain ⟨l, hl⟩ := (Binary64.number_iff y).1 hy
    rcases Int.le_total k l with h | h
    · exact .inl ((Binary64.le_iff x y).2 ⟨k, l, hk, hl, h⟩)
    · exact .inr ((Binary64.le_iff y x).2 ⟨l, k, hl, hk, h⟩)
  le_of_not_lt := by
    intro x y hx hy h
    obtain ⟨k, hk⟩ := (Binary64.number_iff x).1 hx
    obtain ⟨l, hl⟩ := (Binary64.number_iff y).1 hy
    refine (Binary64.le_iff x y).2 ⟨k, l, hk, hl, Int.not_lt.1 fun hlt => h ?_⟩
    exact (Binary64.lt_iff y x).2 ⟨l, k, hl, hk, hlt⟩
  finite_of_le := by
    intro x y hx h0 h
    obtain ⟨z, k, hz, hk, hzk⟩ := (Binary64.le_iff 0 y).1 h0
    obtain ⟨k', l, hk', hl, hkl⟩ := (Binary64.le_iff y x).1 h
    obtain ⟨l', hl', -, hlt⟩ := (Binary64.finite_iff x).1 hx
    have hzero : z = 0 := Option.some.inj (hz.symm.trans Binary64.place?_zero)
    obtain rfl := Option.some.inj (hk.symm.trans hk')
    obtain rfl := Option.some.inj (hl.symm.trans hl')
    have hinf : 0 < Binary64.rankOfInfinity := by decide
    exact (Binary64.finite_iff y).2 ⟨k, hk, by omega, by omega⟩
  number_add := by
    intro x a hx ha
    obtain ⟨k, hk⟩ := (Binary64.number_iff x).1 hx
    exact (Binary64.number_iff _).2 (Binary64.exists_place?_add ha hk)
  number_sub := by
    intro x a hx ha
    obtain ⟨k, hk⟩ := (Binary64.number_iff x).1 hx
    exact (Binary64.number_iff _).2 (Binary64.exists_place?_sub ha hk)
  le_add := by
    intro x a hx ha h
    obtain ⟨k, hk, -⟩ := (Binary64.finite_iff x).1 hx
    obtain ⟨z, l, hz, hl, hzl⟩ := (Binary64.le_iff 0 a).1 h
    obtain rfl : z = 0 := Option.some.inj (hz.symm.trans Binary64.place?_zero)
    rcases hzl.eq_or_lt with rfl | hpos
    · exact (Binary64.le_iff _ _).2 ⟨k, k, hk, (Binary64.place?_add_zero x hl).trans hk, Int.le_refl k⟩
    · have ha' : 0 < a := (Binary64.lt_iff 0 a).2 ⟨0, l, hz, hl, hpos⟩
      rcases Binary64.place?_add x ha ha' with ⟨hnone, -⟩ | ⟨k', m, hk', hle, hm⟩
      · cases hnone.symm.trans hk
      · obtain rfl := Option.some.inj (hk.symm.trans hk')
        exact (Binary64.le_iff _ _).2 ⟨k, m, hk, hm, hle⟩

end Vivarium
