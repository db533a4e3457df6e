import Vivarium.World.Basic
/-!
# Sensing

What a frame can tell about its own cell and the tile it looks at. Every question takes a
direction relative to the way the frame faces; zero looks straight ahead.
-/
namespace Vivarium

/-- Both identifiers are known and the same. -/
def sameChannel : Option ChannelId → Option ChannelId → Bool
  | some i, some j => i == j
  | _, _ => false

/-- The point from which a frame looks at the world. -/
structure Sensor (α : Type) where
  world : World α
  pos : Nat
  facing : Direction

namespace Sensor

variable {α : Type} [Scalar α]

def direction (s : Sensor α) (relative : α) : Direction := s.facing.turn relative

/-- The tile looked at. -/
def neighbor (s : Sensor α) (relative : α) : Nat := s.world.neighbor s.pos (s.direction relative)

def here (s : Sensor α) : Tile α := s.world.tile s.pos

def there (s : Sensor α) (relative : α) : Tile α := s.world.tile (s.neighbor relative)

def isLive (s : Sensor α) (relative : α) : Bool := (s.there relative).live

/-- The neighbour holds a channel, be it alive or partly dead. -/
def isOccupied (s : Sensor α) (relative : α) : Bool := (s.there relative).channel.ids.isSome

/-- This cell is the offspring of the neighbour, by the books of both. -/
def isCellChild (s : Sensor α) (relative : α) : Bool :=
  (s.there relative).live && s.here.family.isParent (s.neighbor relative) &&
    (s.there relative).family.hasChild s.pos

/-- The neighbour is the offspring of this cell, by the books of both. -/
def isCellParent (s : Sensor α) (relative : α) : Bool :=
  (s.there relative).live && s.here.family.hasChild (s.neighbor relative) &&
    (s.there relative).family.isParent s.pos

def isChannelMate (s : Sensor α) (level : Nat) (relative : α) : Bool :=
  s.here.channel.matchesAt (s.there relative).channel level

/-- Identifier at the highest level. -/
def topChannel (s : Sensor α) (t : Tile α) : Option ChannelId :=
  if s.world.config.nlev = 0 then none else t.channel.id? (s.world.config.nlev - 1)

/-- This cell descends from the propagule whose channel the neighbour carries. -/
def isPropaguleChild (s : Sensor α) (relative : α) : Bool :=
  (s.there relative).live &&
    sameChannel s.here.family.prevChan (s.topChannel (s.there relative))

/-- The neighbour descends from the propagule whose channel this cell carries. -/
def isPropaguleParent (s : Sensor α) (relative : α) : Bool :=
  (s.there relative).live &&
    sameChannel (s.there relative).family.prevChan (s.topChannel s.here)

/-- The neighbour holds strictly less than this cell. -/
def neighborIsPoorer (s : Sensor α) (relative : α) : Bool :=
  decide ((s.there relative).stockpile.resource < s.here.stockpile.resource)

/-- The neighbour was born no later than this cell. -/
def neighborIsOlder (s : Sensor α) (relative : α) : Bool :=
  decide ((s.there relative).family.birth.count ≤ s.here.family.birth.count)

def neighborExpiration (s : Sensor α) (level : Nat) (relative : α) : UInt64 :=
  (s.there relative).channel.expiration level

/-- Identifier of a live neighbour, which may hold none at the level. -/
def facingChannel (s : Sensor α) (level : Nat) (relative : α) : Option (Option ChannelId) :=
  if (s.there relative).live then some ((s.there relative).channel.id? level) else none

/-- Balance of a live neighbour. -/
def facingStockpile (s : Sensor α) (relative : α) : Option α :=
  if (s.there relative).live then some (s.there relative).stockpile.resource else none

end Sensor

end Vivarium
