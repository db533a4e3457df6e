import Mathlib.Algebra.Order.Ring.Rat
import Vivarium.Proofs.Scalar.Rounding
import Vivarium.Scalar.Exact
import Vivarium.Stockpile
/-!
# Amounts that credits do not lower

No credit takes a balance below what it has reached. So it is with exact amounts and, although sums are
rounded there, with binary floating point; what is not a number is never below anything.
-/
namespace Vivarium

/-- Amounts in which a sum with a positive finite amount is not below the other summand. -/
class Scalar.Ordered (α : Type) [Scalar α] : Prop where
  lt_irrefl : ∀ x : α, ¬x < x
  not_add_lt : ∀ {x y a : α}, Scalar.isFinite a = true → 0 < a → ¬y < x → ¬y + a < x

instance : Scalar.Ordered Rat where
  lt_irrefl x := Rat.lt_irrefl
  not_add_lt := by
    intro x y a _ ha h
    exact not_lt.2 ((not_lt.1 h).trans (le_add_of_nonneg_right (le_of_lt ha)))

namespace Binary64

open Float.Model Float.Model.UnpackedFloat

/-- Rank of a stored number, with its sign. -/
def place? (x : Float) : Option Int := key? x.toModel.unpack

theorem place?_zero : place? 0 = some 0 := by decide +kernel

theorem proper_toModel (x : Float) : Proper x.toModel.unpack :=
  proper_unpack x.toModel.toBits.toBitVec

theorem lt_iff (x y : Float) :
    x < y ↔ ∃ k l, place? x = some k ∧ place? y = some l ∧ k < l := by
  rw [place?, place?, ← compare_eq_lt_iff (proper_toModel x) (proper_toModel y)]
  have hlt : x < y ↔ (x.toModel.unpack.compare y.toModel.unpack == some .lt) = true := by
    constructor
    · exact fun h => of_decide_eq_true h
    · exact fun h => decide_eq_true h
  rw [hlt, beq_iff_eq]

/-- A positive finite number, by its parts. -/
theorem exists_finite {a : Float} (hf : a.isFinite = true) (ha : 0 < a) :
    ∃ m e, ∃ hm : 0 < m, a.toModel.unpack = .finite .positive m e hm := by
  obtain ⟨k, l, hk, hl, hkl⟩ := (lt_iff 0 a).1 ha
  have hzero : k = 0 := by
    exact Option.some.inj (hk.symm.trans place?_zero)
  have hfinite : a.toModel.unpack.isFinite = true := hf
  unfold place? at hl
  cases hu : a.toModel.unpack with
  | notANumber =>
    rw [hu] at hfinite
    cases hfinite
  | infinity s =>
    rw [hu] at hfinite
    cases hfinite
  | zero s =>
    rw [hu] at hl
    have := Option.some.inj hl
    omega
  | finite s m e hm =>
    cases s with
    | positive => exact ⟨m, e, hm, rfl⟩
    | negative =>
      rw [hu] at hl
      have hneg : -((rank m (e + 1074).toNat : Nat) : Int) = l := Option.some.inj hl
      omega

/-- The sum of any number and a positive finite one keeps its place or comes later. -/
theorem place?_add (y : Float) {a : Float} (hf : a.isFinite = true) (ha : 0 < a) :
    place? y = none ∧ place? (y + a) = none ∨
      ∃ k l, place? y = some k ∧ k ≤ l ∧ place? (y + a) = some l := by
  obtain ⟨m, e, hm, hu⟩ := exists_finite hf ha
  have hsum : place? (y + a) =
      key? (repack (UnpackedFloat.add Format.binary64 y.toModel.unpack (.finite .positive m e hm))) := by
    rw [← hu]
    rfl
  rw [hsum]
  exact key?_add (proper_toModel y) hm (hu ▸ proper_toModel a)

end Binary64

instance : Scalar.Ordered Float where
  lt_irrefl x h := by
    obtain ⟨k, l, hk, hl, hkl⟩ := (Binary64.lt_iff x x).1 h
    have heq := Option.some.inj (hk.symm.trans hl)
    omega
  not_add_lt := by
    intro x y a hf ha h hlt
    obtain ⟨k, l, hk, hl, hkl⟩ := (Binary64.lt_iff _ _).1 hlt
    rcases Binary64.place?_add y hf ha with ⟨_, hnone⟩ | ⟨k', l', hk', hle, hl'⟩
    · cases hnone.symm.trans hk
    · apply h
      have heq := Option.some.inj (hl'.symm.trans hk)
      exact (Binary64.lt_iff y x).2 ⟨k', l, hk', hl, by omega⟩

end Vivarium
