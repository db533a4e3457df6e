import Vivarium.Tag
import Vivarium.Affinity.Regulator
/-!
# Affinity registries

A registry resolves a query tag to the entries nearest to it. Entries stand in insertion order,
which decides between equal distances, and an entry whose regulated distance is beyond the
threshold never matches. Handles count insertions and are not used twice.
-/
namespace Vivarium

/-- The insertion number of an entry. -/
abbrev Handle := Nat

structure Entry (α V : Type) where
  handle : Handle
  tag : Tag
  value : V
  regulator : Regulator α
  deriving DecidableEq, Repr

structure Registry (α V : Type) where
  /-- First inserted first. -/
  entries : List (Entry α V)
  /-- Handle of the next insertion. -/
  next : Handle
  /-- Least similarity that matches. -/
  threshold : α
  deriving DecidableEq, Repr

variable {α V W : Type} [Scalar α]

/-- Mismatch with the query, shifted by the regulator and never below zero. -/
def Entry.distance (e : Entry α V) (query : Tag) : α :=
  Scalar.positivePart (e.tag.distance query + e.regulator.value)

/-- Insert behind every member whose distance is no larger. -/
def placeByDistance {β : Type} (x : α × β) : List (α × β) → List (α × β)
  | [] => [x]
  | y :: ys => if y.1 ≤ x.1 then y :: placeByDistance x ys else x :: y :: ys

/-- Sort by distance; members at equal distance keep their order. -/
def sortByDistance {β : Type} (xs : List (α × β)) : List (α × β) :=
  xs.foldl (fun sorted x => placeByDistance x sorted) []

namespace Registry

/-- A threshold is held between zero and one. -/
def empty (threshold : α) : Registry α V := ⟨[], 0, Scalar.within 1 threshold⟩

instance : Inhabited (Registry α V) := ⟨empty 0⟩

def setThreshold (r : Registry α V) (threshold : α) : Registry α V :=
  { r with threshold := Scalar.within 1 threshold }

def length (r : Registry α V) : Nat := r.entries.length

def isEmpty (r : Registry α V) : Bool := r.entries.isEmpty

def handles (r : Registry α V) : List Handle := r.entries.map (·.handle)

/-- Register a value under a tag. -/
def insert (r : Registry α V) (tag : Tag) (value : V) : Handle × Registry α V :=
  (r.next, { r with entries := r.entries ++ [⟨r.next, tag, value, .neutral⟩], next := r.next + 1 })

def entry? (r : Registry α V) (h : Handle) : Option (Entry α V) :=
  r.entries.find? (·.handle == h)

def get? (r : Registry α V) (h : Handle) : Option V := (r.entry? h).map (·.value)

def tag? (r : Registry α V) (h : Handle) : Option Tag := (r.entry? h).map (·.tag)

def regulator? (r : Registry α V) (h : Handle) : Option (Regulator α) :=
  (r.entry? h).map (·.regulator)

/-- First entry registered under exactly this tag. -/
def entryOf? (r : Registry α V) (tag : Tag) : Option (Entry α V) :=
  r.entries.find? (·.tag == tag)

def findTag? (r : Registry α V) (tag : Tag) : Option Handle := (r.entryOf? tag).map (·.handle)

def erase (r : Registry α V) (h : Handle) : Registry α V :=
  { r with entries := r.entries.filter (·.handle != h) }

def clear (r : Registry α V) : Registry α V := { r with entries := [] }

/-- Rewrite one entry; `none` when the handle is not in the registry. -/
def modify? (r : Registry α V) (h : Handle) (f : Entry α V → Entry α V) :
    Option (Registry α V) :=
  if (r.entry? h).isSome then
    some { r with entries := r.entries.map fun e => if e.handle == h then f e else e }
  else none

def replace? (r : Registry α V) (h : Handle) (value : V) : Option (Registry α V) :=
  r.modify? h fun e => { e with value }

/-- Shift a regulator. A result that is not finite is ignored, yet the entry counts as found. -/
def adjustRegulator? (r : Registry α V) (h : Handle) (delta : α) (duration : UInt32) :
    Option (Registry α V) :=
  r.modify? h fun e => { e with regulator := e.regulator.adjust delta duration }

def setRegulator? (r : Registry α V) (h : Handle) (value : α) (duration : UInt32) :
    Option (Registry α V) :=
  r.modify? h fun e => { e with regulator := e.regulator.set value duration }

def decayRegulators (r : Registry α V) : Registry α V :=
  { r with entries := r.entries.map fun e => { e with regulator := e.regulator.decay } }

def resetRegulators (r : Registry α V) : Registry α V :=
  { r with entries := r.entries.map fun e => { e with regulator := .neutral } }

/-- Regulated similarity of an entry to the query. -/
def score? (r : Registry α V) (h : Handle) (query : Tag) : Option α :=
  (r.entry? h).map fun e => 1 - e.distance query

/-- Entries that clear the threshold, with their distances, in insertion order. -/
def qualifying (r : Registry α V) (query : Tag) : List (α × Entry α V) :=
  r.entries.filterMap fun e =>
    let d := e.distance query
    if d ≤ 1 - r.threshold then some (d, e) else none

/-- Entries that clear the threshold, best first. -/
def ranking (r : Registry α V) (query : Tag) : List (Entry α V) :=
  (sortByDistance (r.qualifying query)).map (·.2)

def matchRanked (r : Registry α V) (query : Tag) (n : Nat) : List Handle :=
  ((r.ranking query).take n).map (·.handle)

def best? (r : Registry α V) (query : Tag) : Option (Entry α V) := (r.ranking query).head?

def matchBest? (r : Registry α V) (query : Tag) : Option Handle :=
  (r.best? query).map (·.handle)

/-- Copy regulators onto the entries of another registry that carry the same tags. -/
def imprint (source : Registry α V) (target : Registry α W) : Registry α W :=
  { target with
    entries := target.entries.map fun e =>
      match source.entryOf? e.tag with
      | some s => { e with regulator := s.regulator }
      | none => e }

end Registry

end Vivarium
