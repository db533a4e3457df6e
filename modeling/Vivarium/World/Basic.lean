import Vivarium.Trigger
import Vivarium.World.Tile
/-!
# The world

All that the frames of a dish share: the settings, the grid, the trigger tags, one tile for every
place and the generator of channel identifiers. Frames act on the world by position, so that every
effect on another tile names the tile.
-/
namespace Vivarium

structure World (α : Type) where
  config : Config α
  grid : Grid
  triggerTags : TriggerTags
  tiles : Array (Tile α)
  rng : Generator
  deriving DecidableEq

namespace World

variable {α : Type} [Scalar α]

/-- A world without occupants. -/
def new (config : Config α) : Except ConfigError (World α) := do
  config.validate
  let grid ← Grid.new config.gridWidth config.gridHeight
  pure {
    config, grid
    triggerTags := .new config.seed config.nlev
    tiles := Array.replicate grid.size (.barren config.nlev config.levels)
    rng := .ofSeed config.seed }

/-- Number of tiles. -/
def size (w : World α) : Nat := w.tiles.size

/-- The tile at a place; outside the grid, a tile that was never occupied. -/
def tile (w : World α) (pos : Nat) : Tile α :=
  if h : pos < w.tiles.size then w.tiles[pos] else .barren w.config.nlev w.config.levels

/-- Change the tile at a place; outside the grid nothing changes. -/
def modify (w : World α) (pos : Nat) (f : Tile α → Tile α) : World α :=
  { w with tiles := w.tiles.modify pos f }

/-- Positions outside the grid are faults. -/
def within (w : World α) (pos : Nat) : Except Fault Unit :=
  if pos < w.size then .ok () else .error (.noTile pos)

def neighbor (w : World α) (pos : Nat) (d : Direction) : Nat := w.grid.neighbor pos d

omit [Scalar α] in
@[simp] theorem size_modify (w : World α) (pos : Nat) (f : Tile α → Tile α) :
    (w.modify pos f).size = w.size := by simp [modify, size]

theorem tile_modify_same (w : World α) (f : Tile α → Tile α) {pos : Nat} (h : pos < w.size) :
    (w.modify pos f).tile pos = f (w.tile pos) := by
  have h' : pos < w.tiles.size := h
  simp [modify, tile, h', Array.getElem_modify]

theorem tile_modify_other (w : World α) (f : Tile α → Tile α) {pos q : Nat} (h : q ≠ pos) :
    (w.modify pos f).tile q = w.tile q := by
  by_cases hq : q < w.tiles.size <;> simp [modify, tile, hq, Array.getElem_modify, Ne.symm h]

def modifyStockpile (w : World α) (pos : Nat) (f : Stockpile α → Stockpile α) : World α :=
  w.modify pos fun t => { t with stockpile := f t.stockpile }

def modifyChannel (w : World α) (pos : Nat) (f : Channel → Channel) : World α :=
  w.modify pos fun t => { t with channel := f t.channel }

def modifyFamily (w : World α) (pos : Nat) (f : Family → Family) : World α :=
  w.modify pos fun t => { t with family := f t.family }

def controls (w : World α) (pos : Nat) (facing : Direction) : Controls α :=
  (w.tile pos).controls.get facing

def modifyControls (w : World α) (pos : Nat) (facing : Direction) (f : Controls α → Controls α) :
    World α :=
  w.modify pos fun t => { t with controls := t.controls.modify facing f }

def inbox (w : World α) (pos : Nat) (facing : Direction) : List (Message α) :=
  (w.tile pos).inboxes.get facing

def modifyInbox (w : World α) (pos : Nat) (facing : Direction)
    (f : List (Message α) → List (Message α)) : World α :=
  w.modify pos fun t => { t with inboxes := t.inboxes.modify facing f }

/-- Put a message behind those that wait in an inbox. -/
def deliver (w : World α) (pos : Nat) (facing : Direction) (m : Message α) : World α :=
  w.modifyInbox pos facing (· ++ [m])

def setMark (w : World α) (pos : Nat) (mark : Apoptosis) : World α :=
  w.modify pos fun t => { t with mark }

/-- Put a sire behind those that wait at a tile. -/
def receive (w : World α) (pos : Nat) (sire : Sire α FrameOp) : World α :=
  w.modify pos fun t => { t with intake := t.intake ++ [sire] }

/-- All resource in stockpiles. -/
def totalResource (w : World α) : α := w.tiles.foldl (fun sum t => sum + t.stockpile.resource) 0

/-- All resource that travels with sires. -/
def pendingEndowment (w : World α) : α := w.tiles.foldl (fun sum t => sum + t.pendingEndowment) 0

def liveCount (w : World α) : Nat := w.tiles.foldl (fun n t => if t.live then n + 1 else n) 0

end World

end Vivarium
