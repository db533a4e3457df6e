import Mathlib.Data.Set.Function
import Vivarium.Proofs.World.Edges
import Vivarium.Proofs.World.Range
/-!
# The grid is a torus

A step changes the column or the row of a place by one, round the end of its side. Steps along one side do
not disturb the other side, a step back undoes a step, and as many steps as a side is long lead round it.
Main statement: all this holds of the word arithmetic in which the steps are computed, which never wraps on
a grid whose sides are not longer than 2^31.
-/
namespace Vivarium

namespace Grid

/-! ## Steps on coordinates -/

def column (g : Grid) (d : Direction) (x : UInt32) : UInt32 :=
  match d with
  | 0 | 2 => x
  | 1 => (x + 1) % g.width
  | 3 => (x + g.width - 1) % g.width

def row (g : Grid) (d : Direction) (y : UInt32) : UInt32 :=
  match d with
  | 0 => (y + g.height - 1) % g.height
  | 2 => (y + 1) % g.height
  | 1 | 3 => y

variable {g : Grid} {x y n : UInt32} {p : Nat}

theorem column_lt (hx : x < g.width) (d : Direction) : g.column d x < g.width := by
  match d with
  | 0 | 2 => exact hx
  | 1 | 3 => exact mod_lt hx _

theorem row_lt (hy : y < g.height) (d : Direction) : g.row d y < g.height := by
  match d with
  | 0 | 2 => exact mod_lt hy _
  | 1 | 3 => exact hy

/-- A step changes column and row apart from each other. -/
theorem neighbor_index (hx : x < g.width) (hy : y < g.height) (d : Direction) :
    g.neighbor (g.index x y) d = g.index (g.column d x) (g.row d y) := by
  match d with
  | 0 => exact neighbor_up hx hy
  | 1 => exact neighbor_right hx hy
  | 2 => exact neighbor_down hx hy
  | 3 => exact neighbor_left hx hy

/-- Within a row two steps can be made in either order. -/
theorem column_comm (h : g.Walkable) (hx : x < g.width) (d e : Direction) :
    g.column e (g.column d x) = g.column d (g.column e x) := by
  have hback := behind_ahead hx h.width_le
  have hforth := ahead_behind hx h.width_le
  match d, e with
  | 0, _ | 2, _ | 1, 0 | 1, 2 | 3, 0 | 3, 2 | 1, 1 | 3, 3 => rfl
  | 1, 3 => exact hback.trans hforth.symm
  | 3, 1 => exact hforth.trans hback.symm

theorem row_comm (h : g.Walkable) (hy : y < g.height) (d e : Direction) :
    g.row e (g.row d y) = g.row d (g.row e y) := by
  have hback := behind_ahead hy h.height_le
  have hforth := ahead_behind hy h.height_le
  match d, e with
  | 1, _ | 3, _ | 0, 1 | 0, 3 | 2, 1 | 2, 3 | 0, 0 | 2, 2 => rfl
  | 2, 0 => exact hback.trans hforth.symm
  | 0, 2 => exact hforth.trans hback.symm

/-! ## Steps round a side -/

theorem toNat_ahead_eq_mod (hx : x < n) (hn : n.toNat ≤ 2 ^ 31) :
    ((x + 1) % n).toNat = (x.toNat + 1) % n.toNat := by
  rw [toNat_ahead hx hn]
  rw [UInt32.lt_iff_toNat_lt] at hx
  split
  · next hlast => rw [hlast, Nat.mod_self]
  · exact (Nat.mod_eq_of_lt (by omega)).symm

/-- Some steps along a side of length `n`. -/
def ahead (n : UInt32) (k : Nat) (x : UInt32) : UInt32 := (fun x => (x + 1) % n)^[k] x

theorem ahead_succ (n : UInt32) (k : Nat) (x : UInt32) : ahead n (k + 1) x = (ahead n k x + 1) % n :=
  Function.iterate_succ_apply' _ k x

theorem ahead_lt (hx : x < n) (k : Nat) : ahead n k x < n := by
  induction k with
  | zero => exact hx
  | succ k ih =>
    rw [ahead_succ]
    exact mod_lt ih _

/-- Steps ahead add up, modulo the length of the side. -/
theorem toNat_ahead_iterate (hx : x < n) (hn : n.toNat ≤ 2 ^ 31) (k : Nat) :
    (ahead n k x).toNat = (x.toNat + k) % n.toNat := by
  induction k with
  | zero => exact (Nat.mod_eq_of_lt (UInt32.lt_iff_toNat_lt.1 hx)).symm
  | succ k ih => rw [ahead_succ, toNat_ahead_eq_mod (ahead_lt hx k) hn, ih, Nat.mod_add_mod, Nat.add_assoc]

/-- As many steps as the side is long. -/
theorem ahead_length (hx : x < n) (hn : n.toNat ≤ 2 ^ 31) : ahead n n.toNat x = x := by
  rw [← UInt32.toNat_inj, toNat_ahead_iterate hx hn, Nat.add_mod_right]
  exact Nat.mod_eq_of_lt (UInt32.lt_iff_toNat_lt.1 hx)

theorem iterate_neighbor_right (hx : x < g.width) (hy : y < g.height) (k : Nat) :
    (g.neighbor · .right)^[k] (g.index x y) = g.index (ahead g.width k x) y := by
  induction k with
  | zero => rfl
  | succ k ih =>
    rw [Function.iterate_succ_apply', ih, ahead_succ]
    exact neighbor_right (ahead_lt hx k) hy

theorem iterate_neighbor_down (hx : x < g.width) (hy : y < g.height) (k : Nat) :
    (g.neighbor · .down)^[k] (g.index x y) = g.index x (ahead g.height k y) := by
  induction k with
  | zero => rfl
  | succ k ih =>
    rw [Function.iterate_succ_apply', ih, ahead_succ]
    exact neighbor_down hx (ahead_lt hy k)

/-! ## Words -/

/-- The coordinates of a place are its remainder and its quotient by the width, and the sums by which its
neighbours are found are those of the numbers that the words stand for. -/
structure Unwrapped (g : Grid) (p : Nat) : Prop where
  column : (g.coords p).1.toNat = p % g.width.toNat
  row : (g.coords p).2.toNat = p / g.width.toNat
  right : ((g.coords p).1 + 1).toNat = p % g.width.toNat + 1
  down : ((g.coords p).2 + 1).toNat = p / g.width.toNat + 1
  widthOn : ((g.coords p).1 + g.width).toNat = p % g.width.toNat + g.width.toNat
  heightOn : ((g.coords p).2 + g.height).toNat = p / g.width.toNat + g.height.toNat
  left : ((g.coords p).1 + g.width - 1).toNat = p % g.width.toNat + g.width.toNat - 1
  up : ((g.coords p).2 + g.height - 1).toNat = p / g.width.toNat + g.height.toNat - 1

theorem toNat_add_of_lt {a b : UInt32} (h : a.toNat + b.toNat < 2 ^ 32) :
    (a + b).toNat = a.toNat + b.toNat := by
  rw [UInt32.toNat_add, Nat.mod_eq_of_lt h]

theorem toNat_add_sub_one {a b : UInt32} (h : a.toNat + b.toNat < 2 ^ 32) (hb : 1 ≤ b.toNat) :
    (a + b - 1).toNat = a.toNat + b.toNat - 1 := by
  have hsum := toNat_add_of_lt h
  have hle : 1 ≤ a + b := UInt32.le_iff_toNat_le.2 (by rw [hsum, UInt32.toNat_one]; omega)
  rw [UInt32.toNat_sub_of_le _ _ hle, hsum, UInt32.toNat_one]

/-- On a walkable grid no sum leaves the words. -/
theorem unwrapped (h : g.Walkable) (hp : p < g.size) : g.Unwrapped p := by
  obtain ⟨hcolumn, hrow, hwidth, hheight⟩ := coords_exact h.width_le h.height_le hp
  have hw := h.width_pos
  have hh := h.height_pos
  constructor
  · exact hcolumn
  · exact hrow
  · rw [toNat_add_of_lt (by rw [UInt32.toNat_one]; omega), hcolumn, UInt32.toNat_one]
  · rw [toNat_add_of_lt (by rw [UInt32.toNat_one]; omega), hrow, UInt32.toNat_one]
  · rw [toNat_add_of_lt hwidth, hcolumn]
  · rw [toNat_add_of_lt hheight, hrow]
  · rw [toNat_add_sub_one hwidth hw, hcolumn]
  · rw [toNat_add_sub_one hheight hh, hrow]

/-! ## The torus -/

theorem size_pos (h : g.Walkable) : 0 < g.size := Nat.mul_pos h.width_pos h.height_pos

theorem index_coords (h : g.Walkable) (hp : p < g.size) : g.index (g.coords p).1 (g.coords p).2 = p := by
  obtain ⟨x, hx, y, hy, rfl⟩ := exists_eq_index h hp
  rw [coords_index hx hy]

/-- Any two steps can be made in either order. -/
theorem neighbor_comm (h : g.Walkable) (hp : p < g.size) (d e : Direction) :
    g.neighbor (g.neighbor p d) e = g.neighbor (g.neighbor p e) d := by
  obtain ⟨x, hx, y, hy, rfl⟩ := exists_eq_index h hp
  rw [neighbor_index hx hy, neighbor_index hx hy, neighbor_index (column_lt hx d) (row_lt hy d),
    neighbor_index (column_lt hx e) (row_lt hy e), column_comm h hx, row_comm h hy]

/-- A step permutes the places. -/
theorem bijOn_neighbor (h : g.Walkable) (d : Direction) :
    Set.BijOn (g.neighbor · d) {p | p < g.size} {p | p < g.size} := by
  have hmaps (e : Direction) : Set.MapsTo (g.neighbor · e) {p | p < g.size} {p | p < g.size} :=
    fun p _ => g.neighbor_lt p e (size_pos h)
  have hinv : Set.InvOn (g.neighbor · d.opposite) (g.neighbor · d) {p | p < g.size} {p | p < g.size} := by
    refine ⟨fun p hp => neighbor_opposite h hp d, fun p hp => ?_⟩
    have hback := neighbor_opposite h hp d.opposite
    rwa [Direction.opposite_opposite] at hback
  exact hinv.bijOn (hmaps d) (hmaps d.opposite)

/-- The grid is a torus. The words in which steps are computed do not wrap, nor do those in which places are
counted. Places and pairs of coordinates correspond. A step from anywhere leads to a place of the grid; on
the grid it is undone by the step the other way, and so permutes the places, and any two steps can be taken
in either order. The width of the grid in steps to the right, or its height in steps down, leads back. -/
theorem torus (h : g.Walkable) :
    (∀ p < g.size, g.Unwrapped p) ∧ (∀ x y, g.index x y < g.size) ∧ g.size ≤ 2 ^ 62 ∧
    (∀ p < g.size, g.index (g.coords p).1 (g.coords p).2 = p) ∧
    (∀ x y, x < g.width → y < g.height → g.coords (g.index x y) = (x, y)) ∧
    (∀ p d, g.neighbor p d < g.size) ∧
    (∀ p < g.size, ∀ d, g.neighbor (g.neighbor p d) d.opposite = p) ∧
    (∀ d, Set.BijOn (g.neighbor · d) {p | p < g.size} {p | p < g.size}) ∧
    (∀ p < g.size, ∀ d e, g.neighbor (g.neighbor p d) e = g.neighbor (g.neighbor p e) d) ∧
    ∀ p < g.size, (g.neighbor · .right)^[g.width.toNat] p = p ∧
      (g.neighbor · .down)^[g.height.toNat] p = p := by
  refine ⟨fun p hp => unwrapped h hp, fun x y => g.index_lt x y (size_pos h),
    size_le h.width_le h.height_le, fun p hp => index_coords h hp, fun x y hx hy => coords_index hx hy,
    fun p d => g.neighbor_lt p d (size_pos h), fun p hp d => neighbor_opposite h hp d,
    bijOn_neighbor h, fun p hp => neighbor_comm h hp, fun p hp => ?_⟩
  obtain ⟨x, hx, y, hy, rfl⟩ := exists_eq_index h hp
  constructor
  · rw [iterate_neighbor_right hx hy, ahead_length hx h.width_le]
  · rw [iterate_neighbor_down hx hy, ahead_length hy h.height_le]

/-- One row, as long as a row can be. -/
def ring : Grid := ⟨0x80000000, 1⟩

/-- From the last place of the longest row a step to the right leads to the first, and a step up or down
nowhere. -/
theorem torus_ring : ring.Walkable ∧ ring.size = 2 ^ 31 ∧
    ring.neighbor (2 ^ 31 - 1) .right = 0 ∧ ring.neighbor 0 Direction.right.opposite = 2 ^ 31 - 1 ∧
    ring.neighbor (2 ^ 31 - 1) .down = 2 ^ 31 - 1 ∧ ring.Unwrapped (2 ^ 31 - 1) ∧
    (ring.neighbor · .right)^[2 ^ 31] 7 = 7 := by
  have hwalk : ring.Walkable := ⟨by decide, by decide, by decide, by decide⟩
  obtain ⟨hwords, -, -, -, -, -, hback, -, -, hround⟩ := torus hwalk
  have hsize : ring.size = 2 ^ 31 := rfl
  have hlast : 2 ^ 31 - 1 < ring.size := by rw [hsize]; omega
  have hright : ring.neighbor (2 ^ 31 - 1) .right = 0 := by decide +kernel
  have hleft := hback _ hlast .right
  rw [hright] at hleft
  exact ⟨hwalk, hsize, hright, hleft, (hround _ hlast).2, hwords _ hlast,
    (hround 7 (by rw [hsize]; omega)).1⟩

end Grid

end Vivarium
