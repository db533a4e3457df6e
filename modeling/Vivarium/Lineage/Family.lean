import Vivarium.Tick
import Vivarium.Word
import Vivarium.Lineage.Positions
import Vivarium.Lineage.Sire
/-!
# Families

The parent and the children of the present occupant of a tile, by position, the tick of its birth
and the propagule it descends from.
-/
namespace Vivarium

structure Family where
  parent : Option Nat
  children : Positions
  birth : Tick
  /-- Top-level channel of the propagule the occupant descends from. -/
  prevChan : Option ChannelId
  deriving DecidableEq

namespace Family

def none : Family := ⟨.none, .empty, .zero, .none⟩

instance : Inhabited Family := ⟨none⟩

/-- A new occupancy, still without children. -/
def settled (parent : Option Nat) (birth : Tick) (prevChan : Option ChannelId) : Family :=
  ⟨parent, .empty, birth, prevChan⟩

def isParent (f : Family) (pos : Nat) : Bool := f.parent == some pos

def addChild (f : Family) (pos : Nat) : Family := { f with children := f.children.insert pos }

def hasChild (f : Family) (pos : Nat) : Bool := f.children.contains pos

/-- Ticks since birth. -/
def age (f : Family) (now : Tick) : UInt64 := Word.sub now.count f.birth.count

end Family

end Vivarium
