import Vivarium.Tag
import Vivarium.Program.Operation
/-!
# Programs

A program is a list of tagged functions, and a function a list of instructions. A thread enters
whichever function best matches a tag, so the order of functions only numbers them.
-/
namespace Vivarium

/-- The three numbers an instruction carries; unused ones are zero. -/
structure Operands where
  first : Nat
  second : Nat
  third : Nat
  deriving DecidableEq, Repr

namespace Operands

def zero : Operands := ⟨0, 0, 0⟩

end Operands

structure Instruction (X : Type) where
  op : Op X
  args : Operands
  affinity : Tag
  deriving DecidableEq, Repr

/-- An instruction with no operands, under the zero tag. -/
def Instruction.bare {X : Type} (op : Op X) : Instruction X := ⟨op, .zero, .new 0⟩

structure Function (X : Type) where
  affinity : Tag
  body : List (Instruction X)
  deriving DecidableEq, Repr

/-- What can go wrong when a program is assembled. -/
inductive ProgramError where
  | empty
  | unknownInstruction (name : String)
  deriving DecidableEq, Repr

def ProgramError.message : ProgramError → String
  | empty => "program must contain at least one function"
  | unknownInstruction name => "unknown instruction `" ++ name ++ "`"

structure Program (X : Type) where
  functions : List (Function X)
  deriving DecidableEq, Repr

namespace Program

variable {X : Type}

/-- The program of an idle machine. -/
def none : Program X := ⟨[]⟩

instance : Inhabited (Program X) := ⟨none⟩

/-- A program that can be loaded has at least one function. -/
def new (functions : List (Function X)) : Except ProgramError (Program X) :=
  if functions.isEmpty then .error .empty else .ok ⟨functions⟩

def function? (p : Program X) (i : Nat) : Option (Function X) := p.functions[i]?

def length (p : Program X) : Nat := p.functions.length

def isEmpty (p : Program X) : Bool := p.functions.isEmpty

/-- Number of instructions in all functions together. -/
def instructionCount (p : Program X) : Nat := p.functions.foldl (fun n f => n + f.body.length) 0

end Program

end Vivarium
