import Vivarium.Scalar
import Vivarium.Fault
/-!
# The grid

Cells lie on a torus of `width` by `height` tiles, numbered row by row. The four directions are
numbered clockwise from up, and a frame's relative directions count from the way it faces.
-/
namespace Vivarium

abbrev Direction := Fin 4

namespace Direction

def up : Direction := 0
def right : Direction := 1
def down : Direction := 2
def left : Direction := 3

def all : List Direction := [up, right, down, left]

/-- Any number names a direction, modulo four. -/
def ofNat (n : Nat) : Direction := Fin.ofNat 4 n

def opposite (d : Direction) : Direction := d + 2

/-- Turn by the whole part of a relative direction; one that is not finite does not turn. -/
def turn {α : Type} [Scalar α] (facing : Direction) (relative : α) : Direction :=
  if Scalar.isFinite relative then facing + ofNat (Scalar.toWord relative % 4).toNat else facing

@[simp] theorem opposite_opposite (d : Direction) : d.opposite.opposite = d := by
  revert d; decide

end Direction

/-- One value for each direction. -/
structure PerFacing (β : Type) where
  up : β
  right : β
  down : β
  left : β
  deriving DecidableEq, Repr

namespace PerFacing

variable {β γ σ ε : Type}

def ofFn (f : Direction → β) : PerFacing β := ⟨f 0, f 1, f 2, f 3⟩

def replicate (x : β) : PerFacing β := ⟨x, x, x, x⟩

def get (q : PerFacing β) : Direction → β
  | 0 => q.up
  | 1 => q.right
  | 2 => q.down
  | 3 => q.left

def modify (q : PerFacing β) (d : Direction) (f : β → β) : PerFacing β :=
  match d with
  | 0 => { q with up := f q.up }
  | 1 => { q with right := f q.right }
  | 2 => { q with down := f q.down }
  | 3 => { q with left := f q.left }

def set (q : PerFacing β) (d : Direction) (x : β) : PerFacing β := q.modify d fun _ => x

def map (f : β → γ) (q : PerFacing β) : PerFacing γ := ⟨f q.up, f q.right, f q.down, f q.left⟩

def toList (q : PerFacing β) : List β := [q.up, q.right, q.down, q.left]

def ofList? : List β → Option (PerFacing β)
  | [a, b, c, d] => some ⟨a, b, c, d⟩
  | _ => none

/-- Visit the four values clockwise from up, passing a state along. -/
def walk (q : PerFacing β) (f : β → σ → β × σ) (s : σ) : PerFacing β × σ :=
  let (a, s) := f q.up s
  let (b, s) := f q.right s
  let (c, s) := f q.down s
  let (d, s) := f q.left s
  (⟨a, b, c, d⟩, s)

@[simp] theorem get_modify_same (q : PerFacing β) (d : Direction) (f : β → β) :
    (q.modify d f).get d = f (q.get d) := by
  match d with
  | 0 | 1 | 2 | 3 => rfl

theorem get_modify_other (q : PerFacing β) {d e : Direction} (f : β → β) (h : e ≠ d) :
    (q.modify d f).get e = q.get e := by
  match d, e, h with
  | 0, 0, h | 1, 1, h | 2, 2, h | 3, 3, h => exact absurd rfl h
  | 0, 1, _ | 0, 2, _ | 0, 3, _ | 1, 0, _ | 1, 2, _ | 1, 3, _ => rfl
  | 2, 0, _ | 2, 1, _ | 2, 3, _ | 3, 0, _ | 3, 1, _ | 3, 2, _ => rfl

@[simp] theorem get_ofFn (f : Direction → β) (d : Direction) : (ofFn f).get d = f d := by
  match d with
  | 0 | 1 | 2 | 3 => rfl

@[simp] theorem get_replicate (x : β) (d : Direction) : (replicate x).get d = x := by
  match d with
  | 0 | 1 | 2 | 3 => rfl

@[simp] theorem get_map (f : β → γ) (q : PerFacing β) (d : Direction) :
    (q.map f).get d = f (q.get d) := by
  match d with
  | 0 | 1 | 2 | 3 => rfl

end PerFacing

structure Grid where
  width : UInt32
  height : UInt32
  deriving DecidableEq, Repr

namespace Grid

/-- Number of tiles. -/
def size (g : Grid) : Nat := g.width.toNat * g.height.toNat

def isEmpty (g : Grid) : Bool := g.size == 0

/-- Places and coordinates have no meaning on a grid without tiles. -/
def inhabited (g : Grid) : Except Fault Unit := if g.isEmpty then .error .emptyGrid else .ok ()

/-- Column and row of a place. -/
def coords (g : Grid) (pos : Nat) : UInt32 × UInt32 :=
  (UInt32.ofNat (pos % g.width.toNat), UInt32.ofNat (pos / g.width.toNat))

/-- Place of a column and a row, wrapping round both ways. -/
def index (g : Grid) (x y : UInt32) : Nat :=
  (y % g.height).toNat * g.width.toNat + (x % g.width).toNat

/-- The tile next to `pos`. -/
def neighbor (g : Grid) (pos : Nat) (d : Direction) : Nat :=
  let (x, y) := g.coords pos
  match d with
  | 0 => g.index x ((y + g.height - 1) % g.height)
  | 1 => g.index ((x + 1) % g.width) y
  | 2 => g.index x ((y + 1) % g.height)
  | 3 => g.index ((x + g.width - 1) % g.width) y

theorem index_lt (g : Grid) (x y : UInt32) (h : 0 < g.size) : g.index x y < g.size := by
  have hw : 0 < g.width.toNat := Nat.pos_of_ne_zero fun e => by simp [size, e] at h
  have hh : 0 < g.height.toNat := Nat.pos_of_ne_zero fun e => by simp [size, e] at h
  have hx : (x % g.width).toNat < g.width.toNat := by
    rw [UInt32.toNat_mod]; exact Nat.mod_lt _ hw
  have hy : (y % g.height).toNat < g.height.toNat := by
    rw [UInt32.toNat_mod]; exact Nat.mod_lt _ hh
  have := Nat.mul_le_mul_right g.width.toNat (Nat.succ_le_of_lt hy)
  rw [Nat.succ_mul] at this
  rw [index, size, Nat.mul_comm g.width.toNat]
  omega

/-- On a grid that has tiles, every neighbour is one of them. -/
theorem neighbor_lt (g : Grid) (pos : Nat) (d : Direction) (h : 0 < g.size) :
    g.neighbor pos d < g.size := by
  match d with
  | 0 | 1 | 2 | 3 => exact g.index_lt _ _ h

end Grid

end Vivarium
