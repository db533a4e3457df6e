import Std.Data.HashMap.Basic
import Vivarium.Program.Basic
/-!
# Instruction libraries

A library lists the operations a program may use and finds them by mnemonic. A later operation
shadows an earlier one of the same name, but keeps its own place in the list.
-/
namespace Vivarium

structure Descriptor (X : Type) where
  name : String
  op : Op X
  arity : Nat
  description : String
  deriving DecidableEq, Repr

variable {X : Type} [Extension X]

def Descriptor.ofOp (op : Op X) : Descriptor X := ⟨op.name, op, op.arity, op.description⟩

structure Library (X : Type) where
  entries : Array (Descriptor X)
  /-- Place of the latest entry under each name. -/
  index : Std.HashMap String Nat

namespace Library

def empty : Library X := ⟨#[], ∅⟩

def add (l : Library X) (op : Op X) : Library X :=
  ⟨l.entries.push (.ofOp op), l.index.insert op.name l.entries.size⟩

def addAll (l : Library X) (ops : List (Op X)) : Library X := ops.foldl add l

/-- The built-in operations. -/
def builtins : Library X := empty.addAll (Builtin.all.map .builtin)

def size (l : Library X) : Nat := l.entries.size

def get? (l : Library X) (i : Nat) : Option (Descriptor X) := l.entries[i]?

def lookup? (l : Library X) (name : String) : Option (Descriptor X) :=
  l.index[name]?.bind fun i => l.entries[i]?

/-- Build an instruction from a mnemonic. -/
def instruction (l : Library X) (name : String) (args : Operands) (affinity : Tag) :
    Except ProgramError (Instruction X) :=
  match l.lookup? name with
  | some d => .ok ⟨d.op, args, affinity⟩
  | none => .error (.unknownInstruction name)

end Library

/-- An instruction as it is written down. -/
structure SourceLine where
  mnemonic : String
  args : Operands
  affinity : Tag
  deriving DecidableEq, Repr

/-- A function as it is written down. -/
structure SourceFunction where
  affinity : Tag
  lines : List SourceLine
  deriving DecidableEq, Repr

namespace Library

/-- Assemble a program; the first unknown mnemonic is the error, and then the lack of functions. -/
def assemble (l : Library X) (source : List SourceFunction) : Except ProgramError (Program X) := do
  let functions ← source.mapM fun f => do
    let body ← f.lines.mapM fun line => l.instruction line.mnemonic line.args line.affinity
    pure (⟨f.affinity, body⟩ : Function X)
  Program.new functions

end Library

end Vivarium
