import Mathlib.Data.List.Basic
import Vivarium.Program.Block
/-!
# Brackets of a body

Openers and closes of a body match like brackets, with one liberty: an opener may lack its close,
and then its block ends with the body. The statements are those a stack of open blocks relies on:
an opener inside a block ends inside it, or both end with the body, and every close inside a block
is the end of an opener inside it.
-/
namespace Vivarium

variable {X : Type}

def opensAt (body : List (Instruction X)) (i : Nat) : Bool := body[i]?.any (·.op.opensBlock)

def closesAt (body : List (Instruction X)) (i : Nat) : Bool := body[i]?.any (·.op.isClose)

/-- Where the block of an opener at `i` ends. -/
def endOf (body : List (Instruction X)) (i : Nat) : Nat := endOfBlock body (i + 1)

@[simp] theorem opensAt_zero (i : Instruction X) (rest : List (Instruction X)) :
    opensAt (i :: rest) 0 = i.op.opensBlock := rfl

@[simp] theorem opensAt_succ (i : Instruction X) (rest : List (Instruction X)) (j : Nat) :
    opensAt (i :: rest) (j + 1) = opensAt rest j := rfl

@[simp] theorem closesAt_zero (i : Instruction X) (rest : List (Instruction X)) :
    closesAt (i :: rest) 0 = i.op.isClose := rfl

@[simp] theorem closesAt_succ (i : Instruction X) (rest : List (Instruction X)) (j : Nat) :
    closesAt (i :: rest) (j + 1) = closesAt rest j := rfl

theorem Op.isClose_eq_false {op : Op X} (h : op.opensBlock = true) : op.isClose = false := by
  cases op with
  | builtin b => cases b <;> simp_all [Op.opensBlock, Op.isClose, Builtin.opensBlock]
  | ext x => rfl

theorem lt_length_of_opensAt {body : List (Instruction X)} {i : Nat} (h : opensAt body i = true) :
    i < body.length := by
  by_contra hn
  simp [opensAt, List.getElem?_eq_none (Nat.le_of_not_lt hn)] at h

theorem lt_length_of_closesAt {body : List (Instruction X)} {i : Nat}
    (h : closesAt body i = true) : i < body.length := by
  by_contra hn
  simp [closesAt, List.getElem?_eq_none (Nat.le_of_not_lt hn)] at h

theorem closesAt_eq_false {body : List (Instruction X)} {i : Nat} (h : opensAt body i = true) :
    closesAt body i = false := by
  unfold opensAt at h
  unfold closesAt
  cases hi : body[i]? with
  | none => simp
  | some inst =>
    rw [hi] at h
    simpa using Op.isClose_eq_false (by simpa using h)

/-! ## The scan -/

theorem closeAt_le (d : Nat) (body : List (Instruction X)) : closeAt d body ≤ body.length := by
  fun_induction closeAt d body <;> simp_all

/-- A scan that stops before the end of the body stops at a close. -/
theorem closesAt_closeAt {d : Nat} {body : List (Instruction X)}
    (h : closeAt d body < body.length) : closesAt body (closeAt d body) = true := by
  fun_induction closeAt d body with
  | case1 => simp at h
  | case2 d i rest ho ih => exact ih (by simpa using h)
  | case3 i rest ho hc => exact hc
  | case4 i rest ho hc d ih => exact ih (by simpa using h)
  | case5 d i rest ho hc ih => exact ih (by simpa using h)

/-- The close of an outer level comes after that of an inner one, unless the body ends first. -/
theorem closeAt_lt_succ (d : Nat) (body : List (Instruction X)) :
    closeAt d body < closeAt (d + 1) body ∨
      (closeAt d body = body.length ∧ closeAt (d + 1) body = body.length) := by
  fun_induction closeAt d body with
  | case1 => simp [closeAt]
  | case2 d i rest ho ih => simpa [closeAt, ho] using ih
  | case3 i rest ho hc => simp [closeAt, ho, hc]
  | case4 i rest ho hc d ih => simpa [closeAt, ho, hc] using ih
  | case5 d i rest ho hc ih => simpa [closeAt, ho, hc] using ih

/-- Outer levels close later, unless neither closes. -/
theorem closeAt_lt_of_lt {d e : Nat} (h : d < e) (body : List (Instruction X)) :
    closeAt d body < closeAt e body ∨
      (closeAt d body = body.length ∧ closeAt e body = body.length) := by
  induction e with
  | zero => omega
  | succ e ih =>
    have hs := closeAt_lt_succ e body
    rcases Nat.lt_succ_iff_lt_or_eq.1 h with hlt | rfl
    · have := ih hlt
      omega
    · exact hs

/-- An opener that the scan passes is closed before the scan stops, or neither ends. -/
theorem closeAt_nested {d j : Nat} {body : List (Instruction X)} (hj : j < closeAt d body)
    (ho : opensAt body j = true) :
    j + 1 + closeAt 0 (body.drop (j + 1)) < closeAt d body ∨
      (j + 1 + closeAt 0 (body.drop (j + 1)) = body.length ∧ closeAt d body = body.length) := by
  fun_induction closeAt d body generalizing j with
  | case1 => simp at hj
  | case2 d i rest hi ih =>
    cases j with
    | zero =>
      have := closeAt_lt_of_lt (show 0 < d + 1 by omega) rest
      simp only [List.drop_succ_cons, List.drop_zero, List.length_cons]
      omega
    | succ j =>
      have := ih (show j < _ by omega) (by simpa using ho)
      simp only [List.drop_succ_cons, List.length_cons]
      omega
  | case3 => simp at hj
  | case4 i rest hi hc d ih =>
    cases j with
    | zero => simp_all
    | succ j =>
      have := ih (show j < _ by omega) (by simpa using ho)
      simp only [List.drop_succ_cons, List.length_cons]
      omega
  | case5 d i rest hi hc ih =>
    cases j with
    | zero => simp_all
    | succ j =>
      have := ih (show j < _ by omega) (by simpa using ho)
      simp only [List.drop_succ_cons, List.length_cons]
      omega

/-- A close that the scan passes ends an opener passed before it, or an outer level. -/
theorem closeAt_matched {d c : Nat} {body : List (Instruction X)} (hc : c < closeAt d body)
    (h : closesAt body c = true) :
    (∃ j < c, opensAt body j = true ∧ j + 1 + closeAt 0 (body.drop (j + 1)) = c) ∨
      ∃ e < d, closeAt e body = c := by
  fun_induction closeAt d body generalizing c with
  | case1 => simp at hc
  | case2 d i rest hi ih =>
    cases c with
    | zero => simp [Op.isClose_eq_false hi] at h
    | succ c =>
      rcases ih (show c < _ by omega) (by simpa using h) with ⟨j, hj, ho, he⟩ | ⟨e, he, hce⟩
      · exact .inl ⟨j + 1, by omega, by simpa using ho, by simp only [List.drop_succ_cons]; omega⟩
      · cases e with
        | zero => exact .inl ⟨0, by omega, by simpa using hi, by simp; omega⟩
        | succ e => exact .inr ⟨e, by omega, by simp [closeAt, hi, hce]⟩
  | case3 => simp at hc
  | case4 i rest hi hcl d ih =>
    cases c with
    | zero => exact .inr ⟨0, by omega, by simp [closeAt, hi, hcl]⟩
    | succ c =>
      rcases ih (show c < _ by omega) (by simpa using h) with ⟨j, hj, ho, he⟩ | ⟨e, he, hce⟩
      · exact .inl ⟨j + 1, by omega, by simpa using ho, by simp only [List.drop_succ_cons]; omega⟩
      · exact .inr ⟨e + 1, by omega, by simp [closeAt, hi, hcl, hce]⟩
  | case5 d i rest hi hcl ih =>
    cases c with
    | zero => simp_all
    | succ c =>
      rcases ih (show c < _ by omega) (by simpa using h) with ⟨j, hj, ho, he⟩ | ⟨e, he, hce⟩
      · exact .inl ⟨j + 1, by omega, by simpa using ho, by simp only [List.drop_succ_cons]; omega⟩
      · exact .inr ⟨e, he, by simp [closeAt, hi, hcl, hce]⟩

/-! ## Ends of blocks -/

variable {body : List (Instruction X)} {i j c : Nat}

theorem endOf_eq (hi : i < body.length) : endOf body i = i + 1 + closeAt 0 (body.drop (i + 1)) := by
  have := closeAt_le 0 (body.drop (i + 1))
  rw [List.length_drop] at this
  exact Nat.min_eq_left (by omega)

theorem endOf_le (body : List (Instruction X)) (i : Nat) : endOf body i ≤ body.length :=
  endOfBlock_le body (i + 1)

theorem lt_endOf (hi : i < body.length) : i < endOf body i := by
  rw [endOf_eq hi]
  omega

/-- A block that does not end with the body ends at a close. -/
theorem closesAt_endOf (hi : i < body.length) (he : endOf body i < body.length) :
    closesAt body (endOf body i) = true := by
  rw [endOf_eq hi] at he ⊢
  have hlt : closeAt 0 (body.drop (i + 1)) < (body.drop (i + 1)).length := by
    rw [List.length_drop]
    omega
  have h := closesAt_closeAt hlt
  simpa [closesAt, List.getElem?_drop] using h

/-- No block ends at an opener. -/
theorem endOf_ne (hi : i < body.length) (ho : opensAt body j = true) : endOf body i ≠ j := by
  intro he
  have hj := lt_length_of_opensAt ho
  have hc := closesAt_endOf hi (by omega)
  rw [he, closesAt_eq_false ho] at hc
  exact absurd hc (by decide)

/-- An opener inside a block ends inside it, or both end with the body. -/
theorem endOf_nested (hij : i < j) (hj : j < endOf body i) (ho : opensAt body j = true) :
    endOf body j < endOf body i ∨ (endOf body j = body.length ∧ endOf body i = body.length) := by
  have hjl := lt_length_of_opensAt ho
  rw [endOf_eq (show i < body.length by omega)] at hj ⊢
  rw [endOf_eq hjl]
  obtain ⟨k, rfl⟩ : ∃ k, j = i + 1 + k := ⟨j - (i + 1), by omega⟩
  have hk : k < closeAt 0 (body.drop (i + 1)) := by omega
  have h := closeAt_nested hk (by simpa [opensAt, List.getElem?_drop] using ho)
  rw [List.drop_drop, List.length_drop] at h
  have he : i + 1 + (k + 1) = i + 1 + k + 1 := by omega
  rw [he] at h
  omega

/-- Every close inside a block ends a block inside it. -/
theorem exists_endOf_eq (hic : i < c) (hc : c < endOf body i) (h : closesAt body c = true) :
    ∃ j, i < j ∧ j < c ∧ opensAt body j = true ∧ endOf body j = c := by
  have hcl := lt_length_of_closesAt h
  rw [endOf_eq (show i < body.length by omega)] at hc
  obtain ⟨k, rfl⟩ : ∃ k, c = i + 1 + k := ⟨c - (i + 1), by omega⟩
  have hk : k < closeAt 0 (body.drop (i + 1)) := by omega
  rcases closeAt_matched hk (by simpa [closesAt, List.getElem?_drop] using h) with
    ⟨j, hj, ho, he⟩ | ⟨e, he, _⟩
  · refine ⟨i + 1 + j, by omega, by omega, by simpa [opensAt, List.getElem?_drop] using ho, ?_⟩
    rw [List.drop_drop] at he
    rw [endOf_eq (by omega), show i + 1 + j + 1 = i + 1 + (j + 1) by omega]
    omega
  · exact absurd he (Nat.not_lt_zero e)

end Vivarium
