import Mathlib.Algebra.Ring.Nat
import Vivarium.Proofs.World.Kinship
import Vivarium.Scalar.Binary64
/-!
# Both sides of an edge

A frame and the frame that looks back at it from the tile in front of it sense one relation: what
the one calls its parent calls the other its child, for cells and for propagules, and mates are
mates of each other. This rests on the grid, where a step and a step the other way lead back,
however narrow the grid is. Main statement: this holds in every world, for every direction that a
program can compute.
-/
namespace Vivarium

/-! ## Steps along a side -/

namespace Grid

section Sides

variable {x n : UInt32}

theorem toNat_ahead (hx : x < n) (hn : n.toNat ≤ 2 ^ 31) :
    ((x + 1) % n).toNat = if x.toNat + 1 = n.toNat then 0 else x.toNat + 1 := by
  rw [UInt32.lt_iff_toNat_lt] at hx
  rw [UInt32.toNat_mod, UInt32.toNat_add, UInt32.toNat_one,
    Nat.mod_eq_of_lt (b := 2 ^ 32) (by omega)]
  split
  · next hlast => rw [hlast, Nat.mod_self]
  · exact Nat.mod_eq_of_lt (by omega)

theorem toNat_behind (hx : x < n) (hn : n.toNat ≤ 2 ^ 31) :
    ((x + n - 1) % n).toNat = if x.toNat = 0 then n.toNat - 1 else x.toNat - 1 := by
  rw [UInt32.lt_iff_toNat_lt] at hx
  have hword : (x + n - 1).toNat = x.toNat + n.toNat - 1 := by
    rw [UInt32.toNat_sub, UInt32.toNat_add, UInt32.toNat_one]
    omega
  rw [UInt32.toNat_mod, hword]
  split
  · next hfirst => rw [hfirst, Nat.zero_add, Nat.mod_eq_of_lt (by omega)]
  · rw [show x.toNat + n.toNat - 1 = x.toNat - 1 + n.toNat by omega, Nat.add_mod_right,
      Nat.mod_eq_of_lt (by omega)]

/-- Steps stay on the side. -/
theorem mod_lt (hx : x < n) (y : UInt32) : y % n < n := by
  rw [UInt32.lt_iff_toNat_lt] at hx ⊢
  rw [UInt32.toNat_mod]
  exact Nat.mod_lt _ (by omega)

/-- One step back undoes one step ahead. -/
theorem behind_ahead (hx : x < n) (hn : n.toNat ≤ 2 ^ 31) :
    ((x + 1) % n + n - 1) % n = x := by
  rw [← UInt32.toNat_inj, toNat_behind (mod_lt hx _) hn, toNat_ahead hx hn]
  rw [UInt32.lt_iff_toNat_lt] at hx
  split <;> split at * <;> omega

theorem ahead_behind (hx : x < n) (hn : n.toNat ≤ 2 ^ 31) :
    ((x + n - 1) % n + 1) % n = x := by
  rw [← UInt32.toNat_inj, toNat_ahead (mod_lt hx _) hn, toNat_behind hx hn]
  rw [UInt32.lt_iff_toNat_lt] at hx
  split <;> split at * <;> omega

end Sides

/-! ## Places and coordinates -/

variable {g : Grid}

/-- Sides that are not empty, and so short that no step along them leaves the words in which columns
and rows are counted. -/
structure Walkable (g : Grid) : Prop where
  width_pos : 1 ≤ g.width.toNat
  width_le : g.width.toNat ≤ 2 ^ 31
  height_pos : 1 ≤ g.height.toNat
  height_le : g.height.toNat ≤ 2 ^ 31

theorem toNat_index {x y : UInt32} (hx : x < g.width) (hy : y < g.height) :
    g.index x y = y.toNat * g.width.toNat + x.toNat := by
  rw [UInt32.lt_iff_toNat_lt] at hx hy
  rw [index, UInt32.toNat_mod, UInt32.toNat_mod, Nat.mod_eq_of_lt hx, Nat.mod_eq_of_lt hy]

/-- The coordinates of a place are those it was made of. -/
theorem coords_index {x y : UInt32} (hx : x < g.width) (hy : y < g.height) :
    g.coords (g.index x y) = (x, y) := by
  rw [coords, toNat_index hx hy]
  rw [UInt32.lt_iff_toNat_lt] at hx
  have hpos : 0 < g.width.toNat := Nat.zero_lt_of_lt hx
  rw [Nat.mul_add_mod', Nat.mod_eq_of_lt hx, Nat.mul_comm, Nat.mul_add_div hpos,
    Nat.div_eq_of_lt hx, Nat.add_zero, UInt32.ofNat_toNat, UInt32.ofNat_toNat]

/-- Every place has a column and a row. -/
theorem exists_eq_index (h : g.Walkable) {p : Nat} (hp : p < g.size) :
    ∃ x < g.width, ∃ y < g.height, p = g.index x y := by
  have hx := Nat.mod_lt p h.width_pos
  have hy : p / g.width.toNat < g.height.toNat := Nat.div_lt_of_lt_mul hp
  have hw := h.width_le
  have hh := h.height_le
  have hcolumn : (UInt32.ofNat (p % g.width.toNat)).toNat = p % g.width.toNat :=
    UInt32.toNat_ofNat_of_lt' (by change _ < 2 ^ 32; omega)
  have hrow : (UInt32.ofNat (p / g.width.toNat)).toNat = p / g.width.toNat :=
    UInt32.toNat_ofNat_of_lt' (by change _ < 2 ^ 32; omega)
  rw [← hcolumn, ← UInt32.lt_iff_toNat_lt] at hx
  rw [← hrow, ← UInt32.lt_iff_toNat_lt] at hy
  refine ⟨_, hx, _, hy, ?_⟩
  rw [toNat_index hx hy, hcolumn, hrow, Nat.div_add_mod']

theorem neighbor_up {x y : UInt32} (hx : x < g.width) (hy : y < g.height) :
    g.neighbor (g.index x y) 0 = g.index x ((y + g.height - 1) % g.height) := by
  rw [neighbor, coords_index hx hy]

theorem neighbor_right {x y : UInt32} (hx : x < g.width) (hy : y < g.height) :
    g.neighbor (g.index x y) 1 = g.index ((x + 1) % g.width) y := by
  rw [neighbor, coords_index hx hy]

theorem neighbor_down {x y : UInt32} (hx : x < g.width) (hy : y < g.height) :
    g.neighbor (g.index x y) 2 = g.index x ((y + 1) % g.height) := by
  rw [neighbor, coords_index hx hy]

theorem neighbor_left {x y : UInt32} (hx : x < g.width) (hy : y < g.height) :
    g.neighbor (g.index x y) 3 = g.index ((x + g.width - 1) % g.width) y := by
  rw [neighbor, coords_index hx hy]

/-- The neighbour of a neighbour on the way back is the tile itself, also where the grid is one or
two tiles wide and neighbours coincide. -/
theorem neighbor_opposite (h : g.Walkable) {p : Nat} (hp : p < g.size) (d : Direction) :
    g.neighbor (g.neighbor p d) d.opposite = p := by
  obtain ⟨x, hx, y, hy, rfl⟩ := exists_eq_index h hp
  match d with
  | 0 =>
    change g.neighbor _ 2 = _
    rw [neighbor_up hx hy, neighbor_down hx (mod_lt hy _), ahead_behind hy h.height_le]
  | 1 =>
    change g.neighbor _ 3 = _
    rw [neighbor_right hx hy, neighbor_left (mod_lt hx _) hy, behind_ahead hx h.width_le]
  | 2 =>
    change g.neighbor _ 0 = _
    rw [neighbor_down hx hy, neighbor_up hx (mod_lt hy _), behind_ahead hy h.height_le]
  | 3 =>
    change g.neighbor _ 1 = _
    rw [neighbor_left hx hy, neighbor_right (mod_lt hx _) hy, ahead_behind hx h.width_le]

end Grid

/-! ## Shared channels -/

theorem sameChannel_comm (i j : Option ChannelId) : sameChannel i j = sameChannel j i := by
  rw [Bool.eq_iff_iff, sameChannel_iff, sameChannel_iff]
  constructor
  · rintro ⟨id, hi, hj⟩
    exact ⟨id, hj, hi⟩
  · rintro ⟨id, hj, hi⟩
    exact ⟨id, hi, hj⟩

namespace Channel

theorem matchesAt_comm (c d : Channel) (level : Nat) :
    c.matchesAt d level = d.matchesAt c level := by
  rw [matchesAt_eq, matchesAt_eq, sameChannel_comm]

theorem matchesAt_trans {c d e : Channel} {level : Nat} (h : c.matchesAt d level = true)
    (h' : d.matchesAt e level = true) : c.matchesAt e level = true := by
  rw [matchesAt_eq, sameChannel_iff] at h h' ⊢
  obtain ⟨id, hc, hd⟩ := h
  obtain ⟨id', hd', he⟩ := h'
  exact ⟨id, hc, he.trans (hd'.symm.trans hd)⟩

end Channel

/-! ## Frames that face each other -/

namespace Sensor

variable {α : Type} [Scalar α]

/-- Two frames in one world, each of which looks at the tile of the other. -/
structure Faces (s : Sensor α) (r : α) (s' : Sensor α) (r' : α) : Prop where
  world : s'.world = s.world
  there : s.neighbor r = s'.pos
  back : s'.neighbor r' = s.pos

namespace Faces

variable {s s' : Sensor α} {r r' : α}

theorem symm (h : s.Faces r s' r') : s'.Faces r' s r := ⟨h.world.symm, h.back, h.there⟩

/-- Each has the other in front. -/
theorem there_eq (h : s.Faces r s' r') : s.there r = s'.here := by
  rw [Sensor.there, here, h.there, h.world]

theorem topChannel_eq (h : s.Faces r s' r') (t : Tile α) : s'.topChannel t = s.topChannel t := by
  rw [topChannel, topChannel, h.world]

/-- Who sees its child is seen as a parent. -/
theorem isCellChild_eq (h : s.Faces r s' r') (hs : s.here.live = true)
    (hs' : s'.here.live = true) : s.isCellChild r = s'.isCellParent r' := by
  rw [isCellChild, isCellParent, h.there_eq, h.symm.there_eq, h.there, h.back, hs, hs',
    Bool.true_and, Bool.true_and, Bool.and_comm]

theorem isPropaguleChild_eq (h : s.Faces r s' r') (hs : s.here.live = true)
    (hs' : s'.here.live = true) : s.isPropaguleChild r = s'.isPropaguleParent r' := by
  rw [isPropaguleChild, isPropaguleParent, h.there_eq, h.symm.there_eq, h.topChannel_eq, hs, hs']

/-- Mates see each other. -/
theorem isChannelMate_eq (h : s.Faces r s' r') (level : Nat) :
    s.isChannelMate level r = s'.isChannelMate level r' := by
  rw [isChannelMate, isChannelMate, h.there_eq, h.symm.there_eq, Channel.matchesAt_comm]

end Faces

end Sensor

/-! ## Looking back -/

/-- Zero is straight ahead. -/
theorem Direction.turn_zero (d : Direction) : d.turn (0 : Float) = d := by
  revert d
  decide +kernel

namespace World

/-- Both sides of an edge sense the same relation. Whatever a frame takes for its relative
direction, a frame of the tile in front of it that faces the opposite way has the first tile
straight ahead. They are mates from both sides or from neither, and if both cells are alive then
what the one senses of the other as parent, the other senses of it as child; so it is with
propagules. To be mates at a level is symmetric and transitive. -/
theorem edge_sensed_alike {w : World Float} (hw : w.grid.Walkable) {p : Nat} (hp : p < w.grid.size)
    (facing : Direction) (r : Float) :
    let d := facing.turn r
    let n := w.neighbor p d
    let s : Sensor Float := ⟨w, p, facing⟩
    let s' : Sensor Float := ⟨w, n, d.opposite⟩
    s.neighbor r = n ∧ s'.neighbor 0 = p ∧
    ((w.tile p).live = true → (w.tile n).live = true →
      s.isCellChild r = s'.isCellParent 0 ∧ s.isCellParent r = s'.isCellChild 0 ∧
      s.isPropaguleChild r = s'.isPropaguleParent 0 ∧
      s.isPropaguleParent r = s'.isPropaguleChild 0) ∧
    (∀ level, s.isChannelMate level r = s'.isChannelMate level 0) ∧
    ∀ (level : Nat) (a b c : Tile Float),
      a.channel.matchesAt b.channel level = b.channel.matchesAt a.channel level ∧
      (a.channel.matchesAt b.channel level = true → b.channel.matchesAt c.channel level = true →
        a.channel.matchesAt c.channel level = true) := by
  intro d n s s'
  have hback : s'.neighbor 0 = p := by
    rw [Sensor.neighbor, Sensor.direction, Direction.turn_zero]
    exact Grid.neighbor_opposite hw hp d
  have hfaces : s.Faces r s' 0 := ⟨rfl, rfl, hback⟩
  refine ⟨rfl, hback, ?_, hfaces.isChannelMate_eq, ?_⟩
  · intro hlive hlive'
    refine ⟨?_, ?_, ?_, ?_⟩
    · exact hfaces.isCellChild_eq hlive hlive'
    · exact (hfaces.symm.isCellChild_eq hlive' hlive).symm
    · exact hfaces.isPropaguleChild_eq hlive hlive'
    · exact (hfaces.symm.isPropaguleChild_eq hlive' hlive).symm
  · intro level a b c
    exact ⟨Channel.matchesAt_comm a.channel b.channel level, Channel.matchesAt_trans⟩

def doorstep : Config Float :=
  { Config.standard with gridWidth := 2, gridHeight := 1, repThresh := 0 }

def outpost : List (Deed Float) :=
  [.found 0 .zero, .reproduce 0 .right 0 2 .none, .settle 1 .zero]

/-- A frame that faces up looks to the right, where it finds its child, and the child finds its
parent to the left. On this grid that is the tile to its right as well. -/
theorem edge_sensed_alike_outpost : ∃ w₀ ids w, World.new doorstep = .ok w₀ ∧
    History w₀ outpost ids w ∧ w.grid.Walkable ∧ w.grid.size = 2 ∧
    (w.tile 0).live = true ∧ (w.tile (w.neighbor 0 (Direction.up.turn (1.9 : Float)))).live = true ∧
    (⟨w, 1, .left⟩ : Sensor Float).neighbor 0 = 0 ∧ (⟨w, 1, .right⟩ : Sensor Float).neighbor 0 = 0 ∧
    (⟨w, 0, .up⟩ : Sensor Float).isCellParent 1.9 = true ∧
    (⟨w, 1, .left⟩ : Sensor Float).isCellChild 0 = true ∧
    (⟨w, 0, .up⟩ : Sensor Float).isPropaguleParent 1.9 = true ∧
    (⟨w, 1, .left⟩ : Sensor Float).isPropaguleChild 0 = true := by
  have hrun : leadsTo doorstep outpost (fun _ w =>
      (w.tile 0).live && (w.tile 1).live && (⟨w, 0, .up⟩ : Sensor Float).isCellParent 1.9 &&
        (⟨w, 0, .up⟩ : Sensor Float).isPropaguleParent 1.9 &&
        decide (w.grid = ⟨2, 1⟩ ∧ w.neighbor 0 .right = 1 ∧ w.neighbor 0 .left = 1)) = true := by
    decide +kernel
  obtain ⟨w₀, ids, w, h₀, hw, ht⟩ := exists_history hrun
  simp only [Bool.and_eq_true, decide_eq_true_eq] at ht
  obtain ⟨⟨⟨⟨hlive, hlive'⟩, hparent⟩, hpropagule⟩, hgrid, hn, hn'⟩ := ht
  have hwalk : w.grid.Walkable := by
    rw [hgrid]
    exact ⟨by decide, by decide, by decide, by decide⟩
  have hsize : w.grid.size = 2 := by
    rw [hgrid]
    rfl
  have hturn : Direction.up.turn (1.9 : Float) = .right := by decide +kernel
  have hright := edge_sensed_alike hwalk (p := 0) (by omega) .up (1.9 : Float)
  have hleft := edge_sensed_alike hwalk (p := 0) (by omega) .left (0 : Float)
  simp only [hturn, hn] at hright
  simp only [Direction.turn_zero, hn'] at hleft
  obtain ⟨-, hback, hsensed, -⟩ := hright
  obtain ⟨-, hchild, -, hdescent⟩ := hsensed hlive hlive'
  refine ⟨w₀, ids, w, h₀, hw, hwalk, hsize, hlive, ?_, hback, hleft.2.1, hparent, ?_, hpropagule,
    ?_⟩
  · rw [hturn, hn, hlive']
  · exact hchild.symm.trans hparent
  · exact hdescent.symm.trans hpropagule

end World

end Vivarium
