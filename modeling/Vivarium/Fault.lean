/-!
# Faults

Requests that have no meaning: a place that is not on the grid, a grid without places, a trigger
without tags. A dish whose configuration is valid never meets one.
-/
namespace Vivarium

inductive Fault where
  | noTile (pos : Nat)
  | emptyGrid
  | noTrigger (slot : Nat)
  deriving DecidableEq, Repr

def Fault.message : Fault → String
  | noTile pos => "no tile at " ++ Nat.repr pos
  | emptyGrid => "the grid has no tiles"
  | noTrigger slot => "no trigger in slot " ++ Nat.repr slot

end Vivarium
