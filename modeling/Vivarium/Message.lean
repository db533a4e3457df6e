import Vivarium.Machine.Basic
/-!
# Messages

What one frame sends to another: a tag, the output memory of the sending thread, and where it
comes from.
-/
namespace Vivarium

inductive MessageKind where
  /-- Between the frames of one cell. -/
  | internal
  /-- To the frame of a neighbouring cell that faces back. -/
  | external
  deriving DecidableEq, Repr

structure Message (α : Type) where
  kind : MessageKind
  affinity : Tag
  payload : Memory α
  fromPos : Nat
  fromFacing : Nat
  deriving DecidableEq

def Message.event {α : Type} (m : Message α) : Event α := ⟨m.affinity, m.payload⟩

end Vivarium
