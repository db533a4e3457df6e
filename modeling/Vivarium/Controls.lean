import Vivarium.Reserve
/-!
# Controls

The switches of one frame, which its sibling frames may flip: whether its inbox accepts messages,
its reserve, and the levels at which it may not reproduce.
-/
namespace Vivarium

structure Controls (α : Type) where
  inboxActive : Bool
  reserve : Reserve α
  /-- One flag for every level, and one for the level above them. -/
  paused : List Bool
  deriving DecidableEq, Repr

namespace Controls

variable {α : Type} [Scalar α]

def new (nlev : Nat) : Controls α := ⟨true, .none, List.replicate (nlev + 1) false⟩

def isPaused (c : Controls α) (level : Nat) : Bool := c.paused.getD level false

def pause (c : Controls α) (level : Nat) : Controls α :=
  { c with paused := c.paused.modify level fun _ => true }

def resume (c : Controls α) (level : Nat) : Controls α :=
  { c with paused := c.paused.modify level fun _ => false }

def pauseAll (c : Controls α) : Controls α := { c with paused := c.paused.map fun _ => true }

def resumeAll (c : Controls α) : Controls α := { c with paused := c.paused.map fun _ => false }

def setInbox (c : Controls α) (active : Bool) : Controls α := { c with inboxActive := active }

def reset (c : Controls α) : Controls α := { c with inboxActive := true, reserve := .none }.resumeAll

end Controls

end Vivarium
