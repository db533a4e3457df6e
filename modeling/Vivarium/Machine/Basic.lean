import Vivarium.Affinity.Registry
import Vivarium.Machine.Thread
/-!
# Machines

A machine runs the threads of one program. Events wait in a queue; each starts a thread at the
function that best matches its tag. The threads share a board: the dispatch registry, a memory, a
generator, and the threads forked during the present pass.
-/
namespace Vivarium

/-- A queued stimulus. -/
structure Event (α : Type) where
  affinity : Tag
  payload : Memory α
  deriving DecidableEq

structure Limits (α : Type) where
  /-- Most threads at a time; what would exceed it is dropped. -/
  maxThreads : Nat
  /-- Deepest call stack of a thread. -/
  maxCallDepth : Nat
  /-- Least similarity for dispatch. -/
  threshold : α
  /-- Countdown given to a regulator that a program changes. -/
  regulatorDuration : UInt32
  deriving DecidableEq, Repr

def Limits.standard {α : Type} [Scalar α] : Limits α := ⟨24, 128, Scalar.ratio 1 2, 4⟩

/-- What the threads of a machine share. -/
structure Board (α : Type) where
  /-- Function numbers under the tags of their functions. -/
  matcher : Registry α Nat
  shared : Memory α
  /-- Threads forked in the present pass, first forked first. -/
  pending : List (Thread α)
  rng : Generator
  deriving DecidableEq

structure Machine (α X : Type) where
  program : Program X
  board : Board α
  threads : List (Thread α)
  /-- First queued first. -/
  events : List (Event α)
  limits : Limits α
  deriving DecidableEq

variable {α X : Type} [Scalar α]

/-- Number of the function that best matches a tag. -/
def Board.resolve? (b : Board α) (affinity : Tag) : Option Nat :=
  (b.matcher.best? affinity).map (·.value)

namespace Machine

def new (rng : Generator) (limits : Limits α) : Machine α X :=
  ⟨.none, ⟨.empty limits.threshold, .empty, [], rng⟩, [], [], limits⟩

/-- The dispatch registry, emptied and filled with the functions of a program. -/
def index (matcher : Registry α Nat) (program : Program X) : Registry α Nat :=
  program.functions.zipIdx.foldl (fun r f => (r.insert f.1.affinity f.2).2) matcher.clear

def setMatcher (m : Machine α X) (matcher : Registry α Nat) : Machine α X :=
  { m with board := { m.board with matcher } }

/-- Replace the program and its dispatch registry; threads and events stay. -/
def load (m : Machine α X) (program : Program X) : Machine α X :=
  { m with program }.setMatcher (index m.board.matcher program)

def unload (m : Machine α X) : Machine α X := m.load .none

/-- Drop threads, events and shared memory; regulators return to neutral. -/
def reset (m : Machine α X) : Machine α X :=
  { m with
    threads := [], events := []
    board := { m.board with
      matcher := m.board.matcher.resetRegulators, shared := .empty, pending := [] } }

def hasProgram (m : Machine α X) : Bool := !m.program.isEmpty

def threadCount (m : Machine α X) : Nat := m.threads.length

/-- The innermost frame of every thread. -/
def frames (m : Machine α X) : List (CallFrame α) := m.threads.filterMap (·.head?)

def enqueue (m : Machine α X) (events : List (Event α)) : Machine α X :=
  { m with events := m.events ++ events }

/-- Start a thread at once, unless nothing matches or the machine is full. -/
def trigger? (m : Machine α X) (affinity : Tag) (payload : Memory α) : Option (Machine α X) :=
  match m.board.resolve? affinity with
  | none => none
  | some function =>
    if m.limits.maxThreads ≤ m.threads.length + m.board.pending.length then none
    else some { m with threads := m.threads ++ [[.enter function payload]] }

def trigger (m : Machine α X) (affinity : Tag) (payload : Memory α) : Machine α X :=
  (m.trigger? affinity payload).getD m

/-- Trigger every event in turn. -/
def handle (m : Machine α X) (events : List (Event α)) : Machine α X :=
  events.foldl (fun m e => m.trigger e.affinity e.payload) m

end Machine

end Vivarium
