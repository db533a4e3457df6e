import Vivarium.Scalar
/-!
# Sparse memory

A memory holds an amount at finitely many addresses, kept in ascending order; every other address
reads as zero.
-/
namespace Vivarium

structure Memory (α : Type) where
  cells : List (Nat × α)
  ascending : cells.Pairwise (fun p q => p.1 < q.1)
  deriving DecidableEq

namespace Memory

variable {α : Type}

def empty : Memory α := ⟨[], .nil⟩

instance : Inhabited (Memory α) := ⟨empty⟩

/-- Store at an address, in order, replacing what was there. -/
def put (a : Nat) (x : α) : List (Nat × α) → List (Nat × α)
  | [] => [(a, x)]
  | (b, y) :: rest =>
    if a < b then (a, x) :: (b, y) :: rest
    else if a = b then (a, x) :: rest
    else (b, y) :: put a x rest

theorem mem_put {a : Nat} {x : α} {cells : List (Nat × α)} {p : Nat × α}
    (h : p ∈ put a x cells) : p = (a, x) ∨ p ∈ cells := by
  induction cells with
  | nil => simpa [put] using h
  | cons q rest ih =>
    obtain ⟨b, y⟩ := q
    simp only [put] at h
    split at h
    · simpa using h
    · split at h
      · rcases List.mem_cons.1 h with h | h
        · exact .inl h
        · exact .inr (List.mem_cons_of_mem _ h)
      · rcases List.mem_cons.1 h with h | h
        · exact .inr (h ▸ List.mem_cons_self)
        · exact (ih h).imp id (List.mem_cons_of_mem _)

theorem ascending_put {a : Nat} {x : α} {cells : List (Nat × α)}
    (h : cells.Pairwise (fun p q => p.1 < q.1)) :
    (put a x cells).Pairwise (fun p q => p.1 < q.1) := by
  induction cells with
  | nil => simp [put]
  | cons q rest ih =>
    obtain ⟨b, y⟩ := q
    obtain ⟨hb, hr⟩ := List.pairwise_cons.1 h
    simp only [put]
    split
    · next hab =>
      refine List.pairwise_cons.2 ⟨fun p hp => ?_, h⟩
      rcases List.mem_cons.1 hp with rfl | hp
      · exact hab
      · exact Nat.lt_trans hab (hb p hp)
    · next hab =>
      split
      · next heq => subst heq; exact List.pairwise_cons.2 ⟨hb, hr⟩
      · next hne =>
        refine List.pairwise_cons.2 ⟨fun p hp => ?_, ih hr⟩
        rcases mem_put hp with rfl | hp
        · exact Nat.lt_of_le_of_ne (Nat.le_of_not_lt hab) (Ne.symm hne)
        · exact hb p hp

def set (m : Memory α) (a : Nat) (x : α) : Memory α := ⟨put a x m.cells, ascending_put m.ascending⟩

def get? (m : Memory α) (a : Nat) : Option α := (m.cells.find? (·.1 == a)).map (·.2)

@[simp] theorem get?_empty (a : Nat) : (empty : Memory α).get? a = none := rfl

theorem find?_put_same (a : Nat) (x : α) (cells : List (Nat × α)) :
    (put a x cells).find? (·.1 == a) = some (a, x) := by
  induction cells with
  | nil => simp [put]
  | cons q rest ih =>
    simp only [put]
    split
    · simp
    · split
      · simp
      · next h => simp [Ne.symm h, ih]

theorem find?_put_other {a b : Nat} (x : α) (cells : List (Nat × α)) (h : b ≠ a) :
    (put a x cells).find? (·.1 == b) = cells.find? (·.1 == b) := by
  induction cells with
  | nil => simp [put, Ne.symm h]
  | cons q rest ih =>
    simp only [put]
    split
    · simp [List.find?_cons, Ne.symm h]
    · split
      · next heq => simp [← heq, Ne.symm h]
      · simp [List.find?_cons, ih]

@[simp] theorem get?_set_same (m : Memory α) (a : Nat) (x : α) : (m.set a x).get? a = some x := by
  simp [get?, set, find?_put_same]

theorem get?_set_other (m : Memory α) {a b : Nat} (x : α) (h : b ≠ a) :
    (m.set a x).get? b = m.get? b := by
  simp [get?, set, find?_put_other x m.cells h]

/-- Store every cell of `n` over this memory. -/
def update (m n : Memory α) : Memory α := n.cells.foldl (fun m p => m.set p.1 p.2) m

/-- Later pairs replace earlier ones at the same address. -/
def ofList (pairs : List (Nat × α)) : Memory α := pairs.foldl (fun m p => m.set p.1 p.2) empty

/-- The amount at an address; zero where nothing was stored. -/
def read [Scalar α] (m : Memory α) (a : Nat) : α := (m.get? a).getD 0

@[simp] theorem read_empty [Scalar α] (a : Nat) : (empty : Memory α).read a = 0 := rfl

@[simp] theorem read_set_same [Scalar α] (m : Memory α) (a : Nat) (x : α) :
    (m.set a x).read a = x := by simp [read]

theorem read_set_other [Scalar α] (m : Memory α) {a b : Nat} (x : α) (h : b ≠ a) :
    (m.set a x).read b = m.read b := by simp [read, get?_set_other m x h]

end Memory

end Vivarium
