import Std.Data.HashMap.Basic
import Vivarium.Affinity.Registry
/-!
# Membranes

A membrane holds tags with multiplicities and lets a message through when the best match of its
tag is odd. Decay takes two from every multiplicity, so that an entry keeps its parity as long as
it stays: odd entries admit, even entries block. Each tag is registered at most once, and an index
finds its entry.
-/
namespace Vivarium

structure Membrane (α : Type) where
  registry : Registry α UInt32
  index : Std.HashMap Tag Handle

namespace Membrane

variable {α : Type} [Scalar α]

def empty (threshold : α) : Membrane α := ⟨.empty threshold, ∅⟩

def length (m : Membrane α) : Nat := m.registry.length

def isEmpty (m : Membrane α) : Bool := m.registry.isEmpty

/-- Enter a tag, or give its entry a new multiplicity. -/
def register (m : Membrane α) (tag : Tag) (multiplicity : UInt32) : Membrane α :=
  match m.index[tag]?.bind fun h => m.registry.replace? h multiplicity with
  | some registry => { m with registry }
  | none =>
    let (h, registry) := m.registry.insert tag multiplicity
    ⟨registry, m.index.insert tag h⟩

/-- Admit the messages that match a tag for a number of qualifying ticks. -/
def registerBringer (m : Membrane α) (tag : Tag) (duration : UInt32) : Membrane α :=
  m.register tag (HalfWord.succ (HalfWord.double duration))

/-- Block the messages that match a tag for a number of qualifying ticks. -/
def registerBlocker (m : Membrane α) (tag : Tag) (duration : UInt32) : Membrane α :=
  m.register tag (HalfWord.double duration)

/-- Multiplicity of exactly this tag. -/
def multiplicity? (m : Membrane α) (tag : Tag) : Option UInt32 :=
  m.index[tag]?.bind m.registry.get?

/-- Take two from a multiplicity above two; drop the entry otherwise. -/
def fade (e : Entry α UInt32) : Option (Entry α UInt32) :=
  if 2 < e.value then some { e with value := e.value - 2 } else none

/-- One qualifying tick passes. -/
def decay (m : Membrane α) : Membrane α :=
  let gone := m.registry.entries.filter fun e => (fade e).isNone
  ⟨{ m.registry with entries := m.registry.entries.filterMap fade },
    gone.foldl (fun index e => index.erase e.tag) m.index⟩

/-- Multiplicities of the entries that match a tag, best first. -/
def matchRanked (m : Membrane α) (tag : Tag) (n : Nat) : List UInt32 :=
  ((m.registry.ranking tag).take n).map (·.value)

/-- The best match of the tag is odd. -/
def admits (m : Membrane α) (tag : Tag) : Bool :=
  match m.registry.best? tag with
  | some e => e.value % 2 == 1
  | none => false

/-- Tags and multiplicities in the order of registration. -/
def toList (m : Membrane α) : List (Tag × UInt32) :=
  m.registry.entries.map fun e => (e.tag, e.value)

/-- Drop every entry; handles go on from where they are. -/
def clear (m : Membrane α) : Membrane α := ⟨m.registry.clear, ∅⟩

end Membrane

end Vivarium
