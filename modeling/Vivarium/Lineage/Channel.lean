import Vivarium.Config
import Vivarium.Random
import Vivarium.Word
import Vivarium.Lineage.Sire
/-!
# Channels

The channel of a cell holds, for every organizational level, a lineage identifier, a generation
and an age. An empty tile has no identifiers. Cells that share an identifier at a level belong to
the same group at that level.
-/
namespace Vivarium

structure Channel where
  /-- Absent on an empty tile. -/
  ids : Option (List ChannelId)
  generations : List UInt64
  ages : List UInt64
  /-- Age beyond which the level is expired. -/
  expirations : List UInt64
  deriving DecidableEq, Repr

namespace Channel

def empty (levels : List Level) : Channel :=
  ⟨none, List.replicate levels.length 0, List.replicate levels.length 0,
    levels.map (·.expiration)⟩

/-- A lineage without ancestry: a new identifier at every level. -/
def founder (levels : List Level) (g : Generator) : Channel × Generator :=
  let (ids, g) := g.draw levels.length
  ({ empty levels with ids := some ids }, g)

/-- Identifier, generation and age of an offspring at one level. -/
structure Inheritance where
  id : ChannelId
  generation : UInt64
  age : UInt64

/-- From the level of reproduction up the offspring belongs to its parent's groups, one generation
on; below it, and where the record has no identifier, it starts afresh. -/
def inherit (record : SireRecord) (level : Nat) (g : Generator) : Inheritance × Generator :=
  match record.ids[level]? with
  | some id =>
    if record.level ≤ level then
      (⟨id, Word.add (record.generations.getD level 0) 1, record.ages.getD level 0⟩, g)
    else (⟨g.next.1, 0, 0⟩, g.next.2)
  | none => (⟨g.next.1, 0, 0⟩, g.next.2)

/-- What an offspring has at each of the listed levels. -/
def inheritAll (record : SireRecord) : List Nat → Generator → List Inheritance × Generator
  | [], g => ([], g)
  | level :: rest, g =>
    let (x, g) := inherit record level g
    let (xs, g) := inheritAll record rest g
    (x :: xs, g)

/-- The channel of an offspring. -/
def ofSire (levels : List Level) (record : SireRecord) (g : Generator) : Channel × Generator :=
  let (xs, g) := inheritAll record (List.range levels.length) g
  (⟨some (xs.map (·.id)), xs.map (·.generation), xs.map (·.age), levels.map (·.expiration)⟩, g)

def nlev (c : Channel) : Nat := c.generations.length

def id? (c : Channel) (level : Nat) : Option ChannelId := c.ids.bind (·[level]?)

def generation (c : Channel) (level : Nat) : UInt64 := c.generations.getD level 0

def age (c : Channel) (level : Nat) : UInt64 := c.ages.getD level 0

/-- Largest number of ticks that one ageing adds. -/
def maxAgeIncrement : Nat := 1000000

/-- Add to the age at a level the nearest whole number of ticks. -/
def incrementAge {α : Type} [Scalar α] (c : Channel) (level : Nat) (delta : α) : Channel :=
  let ticks := Scalar.nearest (Scalar.within (Scalar.ofNat maxAgeIncrement) delta)
  { c with ages := c.ages.modify level fun age => Word.add age (UInt64.ofNat ticks) }

/-- Age every level, unless the tile is empty. -/
def advanceAges (c : Channel) (delta : UInt64) : Channel :=
  match c.ids with
  | none => c
  | some _ => { c with ages := c.ages.map fun age => Word.add age delta }

/-- By how much the age at a level exceeds its threshold. -/
def expiration (c : Channel) (level : Nat) : UInt64 :=
  match c.ages[level]?, c.expirations[level]? with
  | some age, some threshold => Word.sub age threshold
  | _, _ => 0

def isExpired (c : Channel) (level : Nat) : Bool := decide (0 < c.expiration level)

/-- Both channels hold the same identifier at the level. -/
def matchesAt (c d : Channel) (level : Nat) : Bool :=
  match c.id? level, d.id? level with
  | some i, some j => i == j
  | _, _ => false

/-- Forget the occupant. -/
def clear (c : Channel) : Channel :=
  { c with
    ids := none, generations := c.generations.map fun _ => 0, ages := c.ages.map fun _ => 0 }

end Channel

end Vivarium
