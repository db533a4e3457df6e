/-!
# Sets of positions

A finite set of places on the grid, listed in ascending order.
-/
namespace Vivarium

structure Positions where
  toList : List Nat
  ascending : toList.Pairwise (· < ·)
  deriving DecidableEq

namespace Positions

def empty : Positions := ⟨[], .nil⟩

instance : Inhabited Positions := ⟨empty⟩

theorem eq_of_toList_eq {ps qs : Positions} (h : ps.toList = qs.toList) : ps = qs := by
  cases ps
  cases qs
  cases h
  rfl

/-- Put a number into its place, once. -/
def put (p : Nat) : List Nat → List Nat
  | [] => [p]
  | q :: rest => if p < q then p :: q :: rest else if p = q then q :: rest else q :: put p rest

theorem mem_put {p q : Nat} {ps : List Nat} : q ∈ put p ps ↔ q = p ∨ q ∈ ps := by
  induction ps with
  | nil => simp [put]
  | cons r rest ih =>
    simp only [put]
    split
    · simp
    · split
      · next h => subst h; simp
      · simp only [List.mem_cons, ih]
        constructor
        · rintro (h | h | h) <;> simp [h]
        · rintro (h | h | h) <;> simp [h]

theorem ascending_put {p : Nat} {ps : List Nat} (h : ps.Pairwise (· < ·)) :
    (put p ps).Pairwise (· < ·) := by
  induction ps with
  | nil => simp [put]
  | cons q rest ih =>
    obtain ⟨hq, hr⟩ := List.pairwise_cons.1 h
    simp only [put]
    split
    · next hpq =>
      refine List.pairwise_cons.2 ⟨fun r hr' => ?_, h⟩
      rcases List.mem_cons.1 hr' with rfl | hr'
      · exact hpq
      · exact Nat.lt_trans hpq (hq r hr')
    · split
      · exact h
      · refine List.pairwise_cons.2 ⟨fun r hr' => ?_, ih hr⟩
        rcases mem_put.1 hr' with rfl | hr'
        · omega
        · exact hq r hr'

def insert (ps : Positions) (p : Nat) : Positions := ⟨put p ps.toList, ascending_put ps.ascending⟩

def contains (ps : Positions) (p : Nat) : Bool := ps.toList.contains p

/-- Repeated members count once. -/
def ofList (ps : List Nat) : Positions := ps.foldl insert empty

@[simp] theorem contains_empty (p : Nat) : empty.contains p = false := rfl

@[simp] theorem contains_insert (ps : Positions) (p q : Nat) :
    (ps.insert p).contains q = (q == p || ps.contains q) := by
  rw [Bool.eq_iff_iff]
  simp [contains, insert, mem_put]

end Positions

end Vivarium
