/-!
# Operations

The operations an instruction can perform: a fixed set that works on the thread and its machine,
and extensions through which the surroundings of a machine are reached. Each operation has a
mnemonic, a number of arguments and a one-line description.
-/
namespace Vivarium

/-- An instruction set supplied by the surroundings of a machine. -/
class Extension (X : Type) where
  name : X → String
  arity : X → Nat
  description : X → String

/-- The operations every machine has. -/
inductive Builtin where
  | inc | dec | not | add | sub | mult | div | mod
  | testEqu | testNEqu | testLess
  | ifBlock | whileBlock | countdown | close | breakBlock
  | call | ret
  | setMem | copyMem | swapMem | input | output | commit | pull
  | fork | terminate | nop | rng
  | adjRegulator | setRegulator | senseRegulator
  deriving DecidableEq, Repr

namespace Builtin

/-- Every built-in operation, in library order. -/
def all : List Builtin :=
  [inc, dec, not, add, sub, mult, div, mod, testEqu, testNEqu, testLess,
    ifBlock, whileBlock, countdown, close, breakBlock, call, ret,
    setMem, copyMem, swapMem, input, output, commit, pull,
    fork, terminate, nop, rng, adjRegulator, setRegulator, senseRegulator]

def name : Builtin → String
  | inc => "Inc"
  | dec => "Dec"
  | not => "Not"
  | add => "Add"
  | sub => "Sub"
  | mult => "Mult"
  | div => "Div"
  | mod => "Mod"
  | testEqu => "TestEqu"
  | testNEqu => "TestNEqu"
  | testLess => "TestLess"
  | ifBlock => "If"
  | whileBlock => "While"
  | countdown => "Countdown"
  | close => "Close"
  | breakBlock => "Break"
  | call => "Call"
  | ret => "Return"
  | setMem => "SetMem"
  | copyMem => "CopyMem"
  | swapMem => "SwapMem"
  | input => "Input"
  | output => "Output"
  | commit => "Commit"
  | pull => "Pull"
  | fork => "Fork"
  | terminate => "Terminate"
  | nop => "Nop"
  | rng => "Rng"
  | adjRegulator => "AdjRegulator"
  | setRegulator => "SetRegulator"
  | senseRegulator => "SenseRegulator"

def arity : Builtin → Nat
  | add | sub | mult | div | mod | testEqu | testNEqu | testLess => 3
  | setMem | copyMem | swapMem | input | output | commit | pull => 2
  | close | breakBlock | call | ret | fork | terminate | nop => 0
  | _ => 1

def description : Builtin → String
  | inc => "Increment value in local memory Arg1"
  | dec => "Decrement value in local memory Arg1"
  | not => "Logically toggle value in local memory Arg1"
  | add => "Local memory: Arg3 = Arg1 + Arg2"
  | sub => "Local memory: Arg3 = Arg1 - Arg2"
  | mult => "Local memory: Arg3 = Arg1 * Arg2"
  | div => "Local memory: Arg3 = Arg1 / Arg2"
  | mod => "Local memory: Arg3 = Arg1 % Arg2"
  | testEqu => "Local memory: Arg3 = (Arg1 == Arg2)"
  | testNEqu => "Local memory: Arg3 = (Arg1 != Arg2)"
  | testLess => "Local memory: Arg3 = (Arg1 < Arg2)"
  | ifBlock => "Local memory: If Arg1 != 0, proceed; else, skip block."
  | whileBlock => "Local memory: If Arg1 != 0, loop; else, skip block."
  | countdown => "Local memory: Countdown Arg1 to zero."
  | close => "Close current block if there is a block to close."
  | breakBlock => "Break out of current block."
  | call => "Call function that best matches call affinity."
  | ret => "Return from current function if possible."
  | setMem => "Local memory: Arg1 = numerical value of Arg2"
  | copyMem => "Local memory: Arg1 = Arg2"
  | swapMem => "Local memory: Swap values of Arg1 and Arg2."
  | input => "Input memory Arg1 => Local memory Arg2."
  | output => "Local memory Arg1 => Output memory Arg2."
  | commit => "Local memory Arg1 => Shared memory Arg2."
  | pull => "Shared memory Arg1 => Local memory Arg2."
  | fork => "Fork a new thread running the function that best matches the affinity."
  | terminate => "Terminate current thread."
  | nop => "No operation."
  | rng => "Draw from onboard random number generator."
  | adjRegulator => "Add local memory Arg1 to the regulator of the best-matching function."
  | setRegulator => "Set the regulator of the best-matching function to local memory Arg1."
  | senseRegulator => "Read the regulator of the best-matching function into local memory Arg1."

/-- Whether a later `close` ends the block this operation begins. -/
def opensBlock : Builtin → Bool
  | ifBlock | whileBlock | countdown => true
  | _ => false

theorem mem_all (b : Builtin) : b ∈ all := by cases b <;> decide

end Builtin

/-- What one instruction does. -/
inductive Op (X : Type) where
  | builtin (b : Builtin)
  | ext (x : X)
  deriving DecidableEq, Repr

namespace Op

variable {X : Type}

def opensBlock : Op X → Bool
  | builtin b => b.opensBlock
  | ext _ => false

def isClose : Op X → Bool
  | builtin .close => true
  | _ => false

section
variable [Extension X]

def name : Op X → String
  | builtin b => b.name
  | ext x => Extension.name x

def arity : Op X → Nat
  | builtin b => b.arity
  | ext x => Extension.arity x

def description : Op X → String
  | builtin b => b.description
  | ext x => Extension.description x

end

end Op

end Vivarium
