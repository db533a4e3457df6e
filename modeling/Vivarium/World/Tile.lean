import Vivarium.Controls
import Vivarium.FrameOp
import Vivarium.Lineage.Channel
import Vivarium.Lineage.Family
import Vivarium.Message
import Vivarium.Stockpile
/-!
# Tiles

What the world keeps for one place on the grid: the resource, lineage and family of its occupant,
the sires that wait to settle there, and the controls and inboxes of its four frames.
-/
namespace Vivarium

/-- A mark for programmed death. -/
inductive Apoptosis where
  | unmarked
  /-- The occupant dies, but its channel stays visible. -/
  | partialDeath
  | completeDeath
  deriving DecidableEq, Repr

structure Tile (α : Type) where
  stockpile : Stockpile α
  channel : Channel
  family : Family
  mark : Apoptosis
  /-- Sires that wait to settle, first come first. -/
  intake : List (Sire α FrameOp)
  live : Bool
  controls : PerFacing (Controls α)
  /-- Messages that wait to be read, first come first. -/
  inboxes : PerFacing (List (Message α))
  deriving DecidableEq

namespace Tile

variable {α : Type} [Scalar α]

/-- A tile that was never occupied. -/
def barren (nlev : Nat) (levels : List Level) : Tile α where
  stockpile := .new nlev
  channel := .empty levels
  family := .none
  mark := .unmarked
  intake := []
  live := false
  controls := .replicate (.new nlev)
  inboxes := .replicate []

/-- Controls and inboxes as an occupant finds them. -/
def tidy (t : Tile α) : Tile α :=
  { t with mark := .unmarked, controls := t.controls.map (·.reset), inboxes := .replicate [] }

/-- A new occupant lives here. -/
def occupy (t : Tile α) : Tile α := { t.tidy with live := true }

/-- The occupant dies; its resource stays. -/
def kill (t : Tile α) : Tile α := { t.tidy with live := false }

/-- Nothing of the occupant is remembered. -/
def forget (t : Tile α) : Tile α := { t with channel := t.channel.clear, family := .none }

/-- Resource held by the waiting sires. -/
def pendingEndowment (t : Tile α) : α := t.intake.foldl (fun sum s => sum + s.endowment) 0

end Tile

end Vivarium
