import Vivarium.Json.Exact
import Vivarium.Program.Library
import Vivarium.Trigger
/-!
# Programs and triggers as they are written

An instruction is written as a list of its mnemonic, its operands and its tag, of which the last
two may be left out and are then zero. A trigger is written by its name, or by name and level.
-/
namespace Vivarium

/-- The items of a list; nothing else has any. -/
def Json.items : Json Float → List (Json Float)
  | arr items => items
  | _ => []

/-- The counts of a list; what is not a count is zero. -/
def Json.counts (j : Json Float) : List Nat := j.items.map fun x => x.count?.getD 0

/-- The tag of the low bits of a count. -/
def Tag.ofJson (j : Json Float) : Tag := .new (.ofNat (j.count?.getD 0))

/-- Operands that are left out are zero. -/
def Operands.ofJson (j : Json Float) : Operands :=
  ⟨j.counts.getD 0 0, j.counts.getD 1 0, j.counts.getD 2 0⟩

def SourceLine.ofJson (j : Json Float) : SourceLine :=
  match j.items with
  | .str name :: rest => ⟨name, .ofJson (rest.getD 0 .null), .ofJson (rest.getD 1 .null)⟩
  | _ => ⟨"", .zero, .new 0⟩

def SourceFunction.ofJson (j : Json Float) : SourceFunction where
  affinity := .ofJson ((j.member? "tag").getD .null)
  lines := ((j.member? "body").getD .null).items.map .ofJson

def Trigger.ofJson? : Json Float → Option Trigger
  | .str name => ofName? name none
  | .arr [.str name, level] => ofName? name level.count?
  | _ => none

end Vivarium
