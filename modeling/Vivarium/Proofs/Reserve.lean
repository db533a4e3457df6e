import Mathlib.Data.List.Induction
import Vivarium.Config
import Vivarium.Proofs.Countdown
import Vivarium.Proofs.Scalar.Numeric
import Vivarium.Reserve
/-!
# How long a reserve stands

A reserve is finite and not negative, whatever it is set to. It stands at its amount until its countdown has
run out, and a countdown that starts at zero still waits for the next qualifying tick: until then the reserve
has no ticks left and is not cleared.
-/
namespace Vivarium

namespace Reserve

inductive Act (α : Type) where
  | set (amount : α) (duration : UInt32)
  | adjust (delta : α) (duration : UInt32)
  | tryClear
  | clear

def Act.duration? {α : Type} : Act α → Option UInt32
  | set _ duration | adjust _ duration => some duration
  | tryClear | clear => Option.none

variable {α : Type} [Scalar α]

def Act.apply (r : Reserve α) : Act α → Reserve α
  | set amount duration => .set amount duration
  | adjust delta duration => r.adjust delta duration
  | tryClear => r.tryClear
  | clear => none

def after (acts : List (Act α)) : Reserve α := acts.foldl Act.apply none

variable {r : Reserve α} {acts : List (Act α)} {a : Act α} {d : UInt32}

theorem after_concat : after (acts ++ [a]) = a.apply (after acts) := by
  rw [after, List.foldl_append]
  rfl

theorem fresh_apply (h : a.duration? = some d) (r : Reserve α) : (a.apply r).fresh = d := by
  cases a with
  | set amount duration => exact Option.some.inj h
  | adjust delta duration => exact Option.some.inj h
  | tryClear | clear => cases h

/-- A qualifying tick is one tick of the countdown. -/
theorem tryClear_hold (amount : α) (d : UInt32) (k : Nat) :
    tryClear ⟨HalfWord.hold d k amount 0, HalfWord.left d k⟩ =
      ⟨HalfWord.hold d (k + 1) amount 0, HalfWord.left d (k + 1)⟩ := by
  change (⟨if HalfWord.pred (HalfWord.left d k) = 0 then 0 else HalfWord.hold d k amount 0,
    HalfWord.pred (HalfWord.left d k)⟩ : Reserve α) = _
  rw [HalfWord.pred_left, HalfWord.hold_succ]

/-- So many clearings later the amount still stands, or is zero if the countdown has run out. -/
theorem after_replicate_tryClear (acts : List (Act α)) (k : Nat) :
    after (acts ++ List.replicate k .tryClear) =
      ⟨HalfWord.hold (after acts).fresh k (after acts).amount 0, HalfWord.left (after acts).fresh k⟩ := by
  induction k with
  | zero => rw [List.replicate_zero, List.append_nil, HalfWord.hold_zero, HalfWord.left_zero]
  | succ k ih =>
    rw [List.replicate_succ', ← List.append_assoc, after_concat, ih]
    exact tryClear_hold _ _ k

/-- Only a countdown that has just been started at zero leaves an amount with no ticks left. -/
theorem amount_eq_zero_or (h : (after acts).fresh = 0) :
    (after acts).amount = 0 ∨ ∃ before a, acts = before ++ [a] ∧ a.duration? = some 0 := by
  induction acts using List.reverseRecOn with
  | nil => exact .inl rfl
  | append_singleton before a ih =>
    rw [after_concat] at h ⊢
    cases a with
    | set amount duration => exact .inr ⟨before, _, rfl, congrArg some h⟩
    | adjust delta duration => exact .inr ⟨before, _, rfl, congrArg some h⟩
    | tryClear => exact .inl (if_pos h)
    | clear => exact .inl rfl

variable [Scalar.Numeric α]

/-- A reserve is finite and never negative. -/
theorem finite_nonneg_after (acts : List (Act α)) :
    Scalar.isFinite (after acts).amount = true ∧ 0 ≤ (after acts).amount := by
  induction acts using List.reverseRecOn with
  | nil => exact ⟨Scalar.Numeric.finite_zero, Scalar.number_zero⟩
  | append_singleton before a ih =>
    rw [after_concat]
    cases a with
    | set amount duration => exact Scalar.finite_nonneg_asked amount
    | adjust delta duration => exact Scalar.finite_nonneg_asked _
    | clear => exact ⟨Scalar.Numeric.finite_zero, Scalar.number_zero⟩
    | tryClear =>
      change Scalar.isFinite (if _ then 0 else (after before).amount) = true ∧
        0 ≤ (if _ then 0 else (after before).amount)
      split
      · exact ⟨Scalar.Numeric.finite_zero, Scalar.number_zero⟩
      · exact ih

/-- Whatever was done to a reserve, it is finite and not negative. After it was set or shifted for some
qualifying ticks, it stands as it is for so many of them, and for one if that number is zero; then it is
nothing. So a reserve with no ticks left is nothing, unless the last thing that was done was to set or shift
it for no ticks. -/
theorem stands_until_cleared (acts : List (Act α)) :
    (Scalar.isFinite (after acts).amount = true ∧ 0 ≤ (after acts).amount) ∧
      (∀ before a d k, acts = before ++ [a] ++ List.replicate k .tryClear → a.duration? = some d →
        (k < max d.toNat 1 → (after acts).amount = (after (before ++ [a])).amount) ∧
        (max d.toNat 1 ≤ k → (after acts).amount = 0) ∧
        (after acts).fresh.toNat = d.toNat - k) ∧
      ((after acts).fresh = 0 →
        (after acts).amount = 0 ∨ ∃ before a, acts = before ++ [a] ∧ a.duration? = some 0) := by
  refine ⟨finite_nonneg_after acts, ?_, amount_eq_zero_or⟩
  rintro before a d k rfl ha
  have hfresh : (after (before ++ [a])).fresh = d := by
    rw [after_concat]
    exact fresh_apply ha _
  rw [after_replicate_tryClear, hfresh]
  exact ⟨fun h => if_pos h, fun h => if_neg (Nat.not_lt.2 h), HalfWord.toNat_left d k⟩

/-- Set for four qualifying ticks and lowered for two after one of them: it stands for one, and not for two. -/
def lowered : List (Act Float) := [.set 3 4, .tryClear, .adjust (0 - 1) 2]

/-- The lowered reserve stands for one more clearing. -/
theorem stands_until_cleared_lowered :
    0 < (after (lowered ++ [.tryClear])).amount ∧
      (after (lowered ++ [.tryClear])).amount = (after lowered).amount ∧
      (after (lowered ++ [.tryClear, .tryClear])).amount = 0 := by
  have hstands := (stands_until_cleared (lowered ++ [.tryClear])).2.1 [.set 3 4, .tryClear]
    (.adjust (0 - 1) 2) 2 1 rfl rfl
  have hcleared := (stands_until_cleared (lowered ++ [.tryClear, .tryClear])).2.1 [.set 3 4, .tryClear]
    (.adjust (0 - 1) 2) 2 2 rfl rfl
  exact ⟨by decide +kernel, hstands.1 (by decide), hcleared.2.1 (by decide)⟩

/-- A valid configuration may let reserves last for no qualifying ticks. One that is raised then has no ticks
left, and stands all the same. -/
theorem timeless_reserve_stands :
    let config : Config Float := { Config.standard with reserveDuration := 0 }
    let r := after [.adjust (config.repThresh / 2) config.reserveDuration]
    config.validate = .ok () ∧ r.fresh = 0 ∧ r.amount ≠ 0 := by
  intro config r
  have hpos : 0 < r.amount := by decide +kernel
  refine ⟨by decide +kernel, rfl, fun h => ?_⟩
  rw [h] at hpos
  exact Scalar.Ordered.lt_irrefl 0 hpos

end Reserve

end Vivarium
