import Vivarium.Program.Basic
/-!
# Sires

A reproducing cell hands over a record of its lineage, a copy of its program and the resource it
was debited. The three travel together until the target tile settles or refunds them.
-/
namespace Vivarium

/-- Lineage identifier at one organizational level. -/
abbrev ChannelId := UInt64

/-- What is copied from the parent at the moment of reproduction. -/
structure SireRecord where
  sourcePos : Nat
  /-- The way from the parent to the target tile. -/
  dir : Nat
  /-- Level at which the reproduction took place. -/
  level : Nat
  generations : List UInt64
  ids : List ChannelId
  ages : List UInt64
  prevChan : Option ChannelId
  deriving DecidableEq, Repr

/-- The parent's generation at the level of reproduction. -/
def SireRecord.generation (r : SireRecord) : UInt64 := r.generations.getD r.level 0

structure Sire (α X : Type) where
  record : SireRecord
  program : Program X
  endowment : α
  deriving DecidableEq, Repr

end Vivarium
