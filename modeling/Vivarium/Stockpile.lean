import Vivarium.Grid
/-!
# Stockpiles

A stockpile is the resource balance of one cell. Cells move resource between stockpiles; growth
is the one operation that makes or destroys it. Beside the balance it remembers which levels were
harvested and how much ever came from each side.
-/
namespace Vivarium

structure Stockpile (α : Type) where
  resource : α
  /-- Whether the level was harvested since the last reset. -/
  harvested : List Bool
  contributions : PerFacing α
  deriving DecidableEq, Repr

namespace Stockpile

variable {α : Type} [Scalar α]

def new (nlev : Nat) : Stockpile α := ⟨0, List.replicate nlev false, .replicate 0⟩

/-- What a request for `amount` takes: no more than is there, and nothing for an amount that is
negative or not finite. -/
def available (s : Stockpile α) (amount : α) : α :=
  Scalar.least (if Scalar.isFinite amount then Scalar.positivePart amount else 0)
    (Scalar.positivePart s.resource)

/-- Debit up to `amount`; the first component is what was taken. -/
def request (s : Stockpile α) (amount : α) : α × Stockpile α :=
  let taken := s.available amount
  (taken, { s with resource := s.resource - taken })

/-- Debit a fraction of the balance. -/
def requestFraction (s : Stockpile α) (fraction : α) : α × Stockpile α :=
  s.request (Scalar.positivePart s.resource * Scalar.within 1 fraction)

/-- Whether an amount can be credited. -/
def creditable (amount : α) : Bool := Scalar.isFinite amount && decide (0 < amount)

/-- Credit resource that was moved here. -/
def contribute (s : Stockpile α) (amount : α) (from_ : Direction) : Stockpile α :=
  if creditable amount then
    { s with
      resource := s.resource + amount
      contributions := s.contributions.modify from_ (· + amount) }
  else s

def contributedFrom (s : Stockpile α) (d : Direction) : α := s.contributions.get d

/-- Change the balance from outside the dish. -/
def grow (s : Stockpile α) (amount : α) : Stockpile α :=
  if Scalar.isFinite amount then { s with resource := s.resource + amount } else s

/-- Debit on behalf of a level, and remember the level. -/
def harvest (s : Stockpile α) (level : Nat) (amount : α) : α × Stockpile α :=
  { s with harvested := s.harvested.modify level fun _ => true }.request amount

def wasHarvested (s : Stockpile α) (level : Nat) : Bool := s.harvested.getD level false

def resetHarvest (s : Stockpile α) (level : Nat) : Stockpile α :=
  { s with harvested := s.harvested.modify level fun _ => false }

/-- Forget the harvests of the levels below `nlev`. -/
def resetHarvests (s : Stockpile α) (nlev : Nat) : Stockpile α :=
  (List.range nlev).foldl resetHarvest s

def anyHarvested (s : Stockpile α) : Bool := s.harvested.any id

end Stockpile

end Vivarium
