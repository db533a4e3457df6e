import Mathlib.Order.Bounds.Basic
import Vivarium.Proofs.Program.Brackets
/-!
# Blocks as brackets

The end of a block is told by a scan with a single counter. What it finds is what matching brackets would
find: the close up to which openers and closes are balanced, both in the sense that they match and in the
weaker sense that there are as many of either. Main statement: this holds in every body, however many
openers lack a close and closes an opener, and the blocks are nested or apart.
-/
namespace Vivarium

variable {X : Type}

/-- Openers and closes match: each opener has a close behind it, with a balanced part in between. -/
inductive Balanced : List (Instruction X) → Prop
  | nil : Balanced []
  | plain {i : Instruction X} {rest : List (Instruction X)} (hopens : i.op.opensBlock = false)
      (hcloses : i.op.isClose = false) (hrest : Balanced rest) : Balanced (i :: rest)
  | block {o c : Instruction X} {inner rest : List (Instruction X)} (hopens : o.op.opensBlock = true)
      (hinner : Balanced inner) (hcloses : c.op.isClose = true) (hrest : Balanced rest) :
      Balanced (o :: (inner ++ c :: rest))

def Tallied (part : List (Instruction X)) : Prop :=
  part.countP (·.op.opensBlock) = part.countP (·.op.isClose)

/-- The closes behind `i` such that the part up to them is in balance. -/
def closesOff (balance : List (Instruction X) → Prop) (body : List (Instruction X)) (i : Nat) : Set Nat :=
  {e | i < e ∧ closesAt body e = true ∧ balance (body.extract (i + 1) e)}

/-- The blocks of a body are told as brackets are. -/
structure Bracketed (body : List (Instruction X)) : Prop where
  /-- A block ends at the first close up to which the body is in balance, or with the body. -/
  first : ∀ i, opensAt body i = true →
    (IsLeast (closesOff Balanced body i) (endOf body i) ∧ IsLeast (closesOff Tallied body i) (endOf body i)) ∨
    (closesOff Balanced body i = ∅ ∧ closesOff Tallied body i = ∅ ∧ endOf body i = body.length)
  /-- No two blocks share an end, unless they end with the body. -/
  own : ∀ i j, opensAt body i = true → opensAt body j = true → endOf body i < body.length →
    endOf body i = endOf body j → i = j
  /-- Of two blocks the later one comes after the earlier one or ends inside it, or both end with the body. -/
  nested : ∀ i j, i < j → opensAt body i = true → opensAt body j = true →
    endOf body i < j ∨ endOf body j < endOf body i ∨
      (endOf body i = body.length ∧ endOf body j = body.length)
  /-- A close ends one block, or no block reaches it. -/
  spent : ∀ c, closesAt body c = true →
    Xor (∃! i, opensAt body i = true ∧ endOf body i = c)
      (∀ i, opensAt body i = true → c ∉ Set.Icc i (endOf body i))

/-! ## Balance -/

theorem Op.opensBlock_eq_false {op : Op X} (h : op.isClose = true) : op.opensBlock = false := by
  cases ho : op.opensBlock with
  | false => rfl
  | true =>
    rw [Op.isClose_eq_false ho] at h
    exact absurd h (by decide)

/-- A balanced part has a close for each opener. -/
theorem Balanced.tallied {part : List (Instruction X)} (h : Balanced part) : Tallied part := by
  unfold Tallied
  induction h with
  | nil => rfl
  | plain hopens hcloses _ ih => simpa [hopens, hcloses] using ih
  | block hopens _ hcloses _ hinner hrest =>
    simp only [List.countP_cons, List.countP_append, hopens, hcloses, Op.isClose_eq_false hopens,
      Op.opensBlock_eq_false hcloses, hinner, hrest, Bool.false_eq_true, if_true, if_false]
    omega

theorem isClose_getElem {k : Nat} {body : List (Instruction X)} (hk : k < body.length)
    (h : closesAt body k = true) : body[k].op.isClose = true := by
  simpa [closesAt, hk] using h

/-! ## What the scan passes over -/

/-- What stands before the close of a level with `d` levels inside it: for each of these a balanced part and
its close, and then a balanced part. -/
inductive Closing : Nat → List (Instruction X) → Prop
  | last {part : List (Instruction X)} (hpart : Balanced part) : Closing 0 part
  | level {d : Nat} {c : Instruction X} {part rest : List (Instruction X)} (hpart : Balanced part)
      (hcloses : c.op.isClose = true) (hrest : Closing d rest) : Closing (d + 1) (part ++ c :: rest)

theorem Closing.plain {d : Nat} {i : Instruction X} {part : List (Instruction X)}
    (hopens : i.op.opensBlock = false) (hcloses : i.op.isClose = false) (h : Closing d part) :
    Closing d (i :: part) := by
  cases h with
  | last hpart => exact .last (.plain hopens hcloses hpart)
  | level hpart hlevel hrest => exact .level (.plain hopens hcloses hpart) hlevel hrest

/-- An opener takes the innermost close for its own. -/
theorem Closing.opener {d : Nat} {o : Instruction X} {part : List (Instruction X)}
    (hopens : o.op.opensBlock = true) (h : Closing (d + 1) part) : Closing d (o :: part) := by
  cases h with
  | level hinner hcloses hrest =>
    cases hrest with
    | last hpart => exact .last (.block hopens hinner hcloses hpart)
    | level hpart hlevel hrest =>
      have h := Closing.level (.block hopens hinner hcloses hpart) hlevel hrest
      simpa using h

/-- What a scan has passed over when it finds a close. -/
theorem closing_take_closeAt {d : Nat} {body : List (Instruction X)} (h : closeAt d body < body.length) :
    Closing d (body.take (closeAt d body)) := by
  fun_induction closeAt d body with
  | case1 => simp at h
  | case2 d i rest ho ih => exact (ih (by simpa using h)).opener ho
  | case3 i rest ho hc => exact .last .nil
  | case4 i rest ho hc d ih => exact .level .nil hc (ih (by simpa using h))
  | case5 d i rest ho hc ih =>
    exact (ih (by simpa using h)).plain (Bool.eq_false_of_not_eq_true ho) (Bool.eq_false_of_not_eq_true hc)

/-- What stands before the first close of the level is balanced. -/
theorem balanced_take_closeAt {body : List (Instruction X)} (h : closeAt 0 body < body.length) :
    Balanced (body.take (closeAt 0 body)) := by
  cases closing_take_closeAt h with
  | last hpart => exact hpart

/-- Of the instructions that a scan passes over, the closes outnumber the openers by the depth at most. -/
theorem countP_take_le {d k : Nat} {body : List (Instruction X)} (hk : k ≤ closeAt d body) :
    (body.take k).countP (·.op.isClose) ≤ (body.take k).countP (·.op.opensBlock) + d := by
  fun_induction closeAt d body generalizing k with
  | case1 => simp
  | case2 d i rest ho ih =>
    cases k with
    | zero => simp
    | succ k =>
      have := ih (show k ≤ _ by omega)
      simp only [List.take_succ_cons, List.countP_cons, ho, Op.isClose_eq_false ho, Bool.false_eq_true,
        if_true, if_false]
      omega
  | case3 i rest ho hc => simp [Nat.le_zero.1 hk]
  | case4 i rest ho hc d ih =>
    cases k with
    | zero => simp
    | succ k =>
      have := ih (show k ≤ _ by omega)
      simp only [List.take_succ_cons, List.countP_cons, ho, hc, Bool.false_eq_true, if_true, if_false]
      omega
  | case5 d i rest ho hc ih =>
    cases k with
    | zero => simp
    | succ k =>
      have := ih (show k ≤ _ by omega)
      simpa [ho, hc] using this

/-- A scan does not pass over a close with as many openers as closes before it. -/
theorem closeAt_le_of_tallied {k : Nat} {body : List (Instruction X)} (hc : closesAt body k = true)
    (ht : Tallied (body.take k)) : closeAt 0 body ≤ k := by
  by_contra hlt
  have hk := lt_length_of_closesAt hc
  have hclose := isClose_getElem hk hc
  have hle := countP_take_le (show k + 1 ≤ closeAt 0 body by omega)
  rw [List.take_succ_eq_append_getElem hk, List.countP_append, List.countP_append, ht] at hle
  simp only [List.countP_singleton, hclose, Op.opensBlock_eq_false hclose, Bool.false_eq_true, if_true,
    if_false] at hle
  omega

/-! ## Ends of blocks -/

variable {body : List (Instruction X)} {i j c e : Nat}

theorem closesOff_balanced_subset (body : List (Instruction X)) (i : Nat) :
    closesOff Balanced body i ⊆ closesOff Tallied body i :=
  fun _ ⟨hie, hc, hbalance⟩ => ⟨hie, hc, hbalance.tallied⟩

/-- A block ends no later than at a close up to which there are as many openers as closes. -/
theorem endOf_le_of_mem (hi : i < body.length) (he : e ∈ closesOff Tallied body i) : endOf body i ≤ e := by
  obtain ⟨hie, hc, htally⟩ := he
  obtain ⟨k, rfl⟩ : ∃ k, e = i + 1 + k := ⟨e - (i + 1), by omega⟩
  rw [endOf_eq hi]
  rw [List.extract_eq_take_drop, Nat.add_sub_cancel_left] at htally
  have hck : closesAt (body.drop (i + 1)) k = true := by simpa [closesAt, List.getElem?_drop] using hc
  exact Nat.add_le_add_left (closeAt_le_of_tallied hck htally) (i + 1)

/-- Up to the close at which a block ends it is balanced. -/
theorem endOf_mem (hi : i < body.length) (he : endOf body i < body.length) :
    endOf body i ∈ closesOff Balanced body i := by
  refine ⟨lt_endOf hi, closesAt_endOf hi he, ?_⟩
  rw [endOf_eq hi] at he ⊢
  rw [List.extract_eq_take_drop, Nat.add_sub_cancel_left]
  apply balanced_take_closeAt
  rw [List.length_drop]
  omega

/-- Nothing closes off a block that ends with its body. -/
theorem closesOff_eq_empty (hi : i < body.length) (he : endOf body i = body.length) :
    closesOff Tallied body i = ∅ := by
  rw [Set.eq_empty_iff_forall_notMem]
  intro e hmem
  have hle := endOf_le_of_mem hi hmem
  have hlt := lt_length_of_closesAt hmem.2.1
  omega

/-- A close ends one block only. -/
theorem eq_of_endOf_eq (hi : opensAt body i = true) (hj : opensAt body j = true)
    (hlt : endOf body i < body.length) (he : endOf body i = endOf body j) : i = j := by
  have hin := lt_endOf (lt_length_of_opensAt hi)
  have hjn := lt_endOf (lt_length_of_opensAt hj)
  rcases Nat.lt_trichotomy i j with hij | hij | hij
  · have := endOf_nested hij (by omega) hj
    omega
  · exact hij
  · have := endOf_nested hij (by omega) hi
    omega

/-- A close that a block reaches ends exactly one block. -/
theorem existsUnique_endOf_eq (hi : opensAt body i = true) (hc : closesAt body c = true)
    (hreach : c ∈ Set.Icc i (endOf body i)) : ∃! j, opensAt body j = true ∧ endOf body j = c := by
  have hcl := lt_length_of_closesAt hc
  have hex : ∃ j, opensAt body j = true ∧ endOf body j = c := by
    rcases Nat.lt_or_eq_of_le hreach.2 with hlt | heq
    · have hne : i ≠ c := by
        rintro rfl
        rw [closesAt_eq_false hi] at hc
        exact absurd hc (by decide)
      obtain ⟨j, -, -, hj, he⟩ := exists_endOf_eq (Nat.lt_of_le_of_ne hreach.1 hne) hlt hc
      exact ⟨j, hj, he⟩
    · exact ⟨i, hi, heq.symm⟩
  obtain ⟨j, hj, he⟩ := hex
  exact ⟨j, ⟨hj, he⟩, fun k hk => eq_of_endOf_eq hk.1 hj (by omega) (by omega)⟩

/-- Blocks are told as brackets are, in every body. -/
theorem blocks_bracketed (body : List (Instruction X)) : Bracketed body where
  first i hi := by
    have hlt := lt_length_of_opensAt hi
    rcases Nat.lt_or_eq_of_le (endOf_le body i) with he | he
    · have hmem := endOf_mem hlt he
      have hsubset := closesOff_balanced_subset body i
      exact .inl ⟨⟨hmem, fun e h => endOf_le_of_mem hlt (hsubset h)⟩,
        ⟨hsubset hmem, fun e h => endOf_le_of_mem hlt h⟩⟩
    · have hnone := closesOff_eq_empty hlt he
      exact .inr ⟨Set.subset_eq_empty (closesOff_balanced_subset body i) hnone, hnone, he⟩
  own i j hi hj hlt he := eq_of_endOf_eq hi hj hlt he
  nested i j hij hi hj := by
    have hne := endOf_ne (lt_length_of_opensAt hi) hj
    rcases Nat.lt_or_gt_of_ne hne with h | h
    · exact .inl h
    · have := endOf_nested hij h hj
      exact .inr (by omega)
  spent c hc := by
    by_cases hreach : ∃ i, opensAt body i = true ∧ c ∈ Set.Icc i (endOf body i)
    · obtain ⟨i, hi, hmem⟩ := hreach
      exact .inl ⟨existsUnique_endOf_eq hi hc hmem, fun h => h i hi hmem⟩
    · push Not at hreach
      refine .inr ⟨hreach, fun ⟨i, ⟨hi, he⟩, _⟩ => hreach i hi ?_⟩
      exact ⟨he ▸ Nat.le_of_lt (lt_endOf (lt_length_of_opensAt hi)), Nat.le_of_eq he.symm⟩

/-- A loop around a block, a close too many, and a block without a close. -/
def unevenBody : List (Instruction Empty) :=
  [.bare (.builtin .whileBlock), .bare (.builtin .ifBlock), .bare (.builtin .close),
    .bare (.builtin .close), .bare (.builtin .close), .bare (.builtin .ifBlock), .bare (.builtin .nop)]

/-- The loop ends at the second of three closes, and no block reaches the third. -/
theorem blocks_bracketed_uneven :
    endOf unevenBody 0 = 3 ∧ endOf unevenBody 1 = 2 ∧ endOf unevenBody 5 = unevenBody.length ∧
    IsLeast (closesOff Balanced unevenBody 0) 3 ∧ closesOff Tallied unevenBody 5 = ∅ ∧
    (∃! i, opensAt unevenBody i = true ∧ endOf unevenBody i = 2) ∧
    ∀ i, opensAt unevenBody i = true → 4 ∉ Set.Icc i (endOf unevenBody i) := by
  have h := blocks_bracketed unevenBody
  have hloop : endOf unevenBody 0 = 3 := by decide
  have hlast : endOf unevenBody 5 = unevenBody.length := by decide
  refine ⟨hloop, by decide, hlast, ?_, ?_, ?_, ?_⟩
  · rcases h.first 0 rfl with ⟨hleast, -⟩ | ⟨-, -, he⟩
    · exact hloop ▸ hleast
    · exact absurd (hloop.symm.trans he) (by decide)
  · rcases h.first 5 rfl with ⟨-, hmem, -⟩ | ⟨-, hnone, -⟩
    · have hlt := lt_length_of_closesAt hmem.2.1
      omega
    · exact hnone
  · rcases h.spent 2 rfl with ⟨hone, -⟩ | ⟨hnone, -⟩
    · exact hone
    · exact absurd ⟨by decide, by decide⟩ (hnone 1 rfl)
  · rcases h.spent 4 rfl with ⟨⟨i, ⟨hi, he⟩, -⟩, -⟩ | ⟨hnone, -⟩
    · have hnot : ∀ i < unevenBody.length, opensAt unevenBody i = true → endOf unevenBody i ≠ 4 := by
        decide
      exact absurd he (hnot i (lt_length_of_opensAt hi) hi)
    · exact hnone

end Vivarium
