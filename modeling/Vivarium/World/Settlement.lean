import Vivarium.World.Basic
/-!
# Settlement and death

Occupants come as founders or by settling a waiting sire, and go by apoptosis or by removal. A sire
that is turned away gives its endowment back to its parent's tile.
-/
namespace Vivarium

namespace World

variable {α : Type} [Scalar α]

/-- A founder takes the tile. -/
def found (w : World α) (pos : Nat) (tick : Tick) : World α :=
  let (channel, rng) := Channel.founder w.config.levels w.rng
  { w with rng }.modify pos fun t =>
    { t with channel, family := .settled none tick none }.occupy

/-- Give the endowment of a sire back to its parent's tile. -/
def refund (w : World α) (sire : Sire α FrameOp) : Except Fault (World α) := do
  let parent := sire.record.sourcePos
  w.within parent
  pure (w.modifyStockpile parent
    (·.contribute sire.endowment (.ofNat sire.record.dir)))

/-- Take every waiting sire off a tile. -/
def clearIntake (w : World α) (pos : Nat) : World α := w.modify pos fun t => { t with intake := [] }

/-- Turn every waiting sire away; the first component counts them. -/
def refundIntake (w : World α) (pos : Nat) : Except Fault (Nat × World α) := do
  let waiting := (w.tile pos).intake
  let w ← waiting.foldlM refund (w.clearIntake pos)
  pure (waiting.length, w)

/-- The offspring of a sire takes the tile, and its parent learns of it. -/
def settle (w : World α) (pos : Nat) (tick : Tick) (sire : Sire α FrameOp) :
    Except Fault (World α) := do
  let record := sire.record
  let (channel, rng) := Channel.ofSire w.config.levels record w.rng
  let w := { w with rng }.modify pos fun t =>
    { t with channel, family := .settled (some record.sourcePos) tick record.prevChan }
  w.within record.sourcePos
  let w := w.modifyFamily record.sourcePos (·.addChild pos)
  pure (w.modify pos fun t =>
    { t with
      stockpile := t.stockpile.contribute sire.endowment (Direction.ofNat record.dir).opposite
    }.occupy)

/-- Settle the first waiting sire and turn the others away; the program is what to load. -/
def settleSire (w : World α) (pos : Nat) (tick : Tick) :
    Except Fault (Option (Program FrameOp) × World α) :=
  match (w.tile pos).intake with
  | [] => pure (none, w)
  | sire :: losers => do
    let w ← losers.foldlM refund (w.clearIntake pos)
    let w ← w.settle pos tick sire
    pure (some sire.program, w)

/-- Carry out the mark of a tile, and return it. -/
def applyApoptosis (w : World α) (pos : Nat) : Apoptosis × World α :=
  let mark := (w.tile pos).mark
  match mark with
  | .unmarked => (mark, w)
  | .partialDeath => (mark, w.modify pos (·.kill))
  | .completeDeath => (mark, w.modify pos (·.kill.forget))

/-- Remove the occupant. -/
def vacate (w : World α) (pos : Nat) : World α := w.modify pos (·.kill.forget)

end World

end Vivarium
