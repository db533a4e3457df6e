import Vivarium.Program.Basic
/-!
# Matching ends of blocks

Openers and closes in a body match like brackets. The scan starts just behind an opener and counts
the openers met on the way; a close met at depth zero is the end, and a body without one ends the
block itself.
-/
namespace Vivarium

variable {X : Type}

/-- Place of the close at depth `depth`, counted from the head of the list; the length if none. -/
def closeAt : Nat → List (Instruction X) → Nat
  | _, [] => 0
  | depth, i :: rest =>
    if i.op.opensBlock then closeAt (depth + 1) rest + 1
    else if i.op.isClose then
      match depth with
      | 0 => 0
      | depth + 1 => closeAt depth rest + 1
    else closeAt depth rest + 1

/-- Place of the close matching an opener that stands just before `start`, or the body length. -/
def endOfBlock (body : List (Instruction X)) (start : Nat) : Nat :=
  Nat.min (start + closeAt 0 (body.drop start)) body.length

theorem endOfBlock_le (body : List (Instruction X)) (start : Nat) :
    endOfBlock body start ≤ body.length := Nat.min_le_right _ _

end Vivarium
