import Vivarium.Machine.Memory
import Vivarium.Program.Block
/-!
# Threads

A thread is a stack of call frames, innermost first. A frame holds three memories, the function it
runs, the place of its next instruction and the blocks it has opened.
-/
namespace Vivarium

inductive BlockKind where
  | basic
  | loop
  deriving DecidableEq, Repr

/-- An open block, by the places of its opener and of its close. -/
structure Block where
  opener : Nat
  close : Nat
  kind : BlockKind
  deriving DecidableEq, Repr

structure CallFrame (α : Type) where
  locals : Memory α
  inputs : Memory α
  outputs : Memory α
  function : Nat
  pointer : Nat
  /-- Innermost first. -/
  blocks : List Block
  deriving DecidableEq

namespace CallFrame

variable {α : Type}

/-- A frame about to start a function on the given input. -/
def enter (function : Nat) (inputs : Memory α) : CallFrame α :=
  ⟨.empty, inputs, .empty, function, 0, []⟩

def setLocal (f : CallFrame α) (a : Nat) (x : α) : CallFrame α :=
  { f with locals := f.locals.set a x }

def setOutput (f : CallFrame α) (a : Nat) (x : α) : CallFrame α :=
  { f with outputs := f.outputs.set a x }

/-- Step over the opener's block: on to the place after its close, or to the end of the body. -/
def leave (f : CallFrame α) (length close : Nat) : CallFrame α :=
  { f with pointer := Nat.min (close + 1) length }

/-- Enter or skip the block whose opener stands just before the pointer. -/
def openBlock {X : Type} (f : CallFrame α) (body : List (Instruction X)) (kind : BlockKind)
    (enter : Bool) : CallFrame α :=
  let close := endOfBlock body f.pointer
  if enter then { f with blocks := ⟨f.pointer - 1, close, kind⟩ :: f.blocks }
  else f.leave body.length close

/-- Close the innermost block; a loop goes back to its opener. -/
def closeBlock (f : CallFrame α) : CallFrame α :=
  match f.blocks with
  | [] => f
  | b :: rest =>
    match b.kind with
    | .basic => { f with blocks := rest }
    | .loop => { f with blocks := rest, pointer := b.opener }

/-- Give up the innermost block and go on behind its close. -/
def breakBlock (f : CallFrame α) (length : Nat) : CallFrame α :=
  match f.blocks with
  | [] => f
  | b :: rest => { f with blocks := rest }.leave length b.close

variable [Scalar α]

def readLocal (f : CallFrame α) (a : Nat) : α := f.locals.read a

def readInput (f : CallFrame α) (a : Nat) : α := f.inputs.read a

end CallFrame

/-- Call frames, innermost first; a thread without any is dead. -/
abbrev Thread (α : Type) := List (CallFrame α)

/-- End the innermost frame; its outputs go into the locals of its caller. -/
def Thread.ret {α : Type} : Thread α → Thread α
  | [] => []
  | [_] => []
  | done :: caller :: rest =>
    { caller with locals := caller.locals.update done.outputs } :: rest

end Vivarium
