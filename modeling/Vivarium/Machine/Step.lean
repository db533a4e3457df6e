import Vivarium.Machine.Basic
/-!
# Single steps

One step of a thread performs one instruction, or ends the body it has run through. Calls and
forks dispatch by tag; all other built-in operations change the innermost frame and the board.
Extensions are carried out by a host, which sees the whole frame but writes only its memories, the
shared memory, the generator and whatever state is its own.
-/
namespace Vivarium

/-- What a host may read of the thread it acts for. -/
structure Site (α X : Type) where
  instruction : Instruction X
  frame : CallFrame α
  program : Program X

/-- What a host may write. -/
structure Scratch (α : Type) where
  locals : Memory α
  inputs : Memory α
  outputs : Memory α
  shared : Memory α
  rng : Generator

structure Host (α X σ : Type) where
  execute : X → Site α X → Scratch α → σ → Scratch α × σ

variable {α X σ : Type}

/-- What a host finds when it is called. -/
def Scratch.of (f : CallFrame α) (b : Board α) : Scratch α :=
  ⟨f.locals, f.inputs, f.outputs, b.shared, b.rng⟩

def Scratch.frame (s : Scratch α) (f : CallFrame α) : CallFrame α :=
  { f with locals := s.locals, inputs := s.inputs, outputs := s.outputs }

def Scratch.board (s : Scratch α) (b : Board α) : Board α :=
  { b with shared := s.shared, rng := s.rng }

variable [Scalar α]

namespace CallFrame

/-- Store the result of a two-operand operation. -/
def combine (f : CallFrame α) (args : Operands) (op : α → α → α) : CallFrame α :=
  f.setLocal args.third (op (f.readLocal args.first) (f.readLocal args.second))

/-- The remainder of the whole parts, never negative; nothing is stored when it is undefined. -/
def remainder (f : CallFrame α) (args : Operands) : CallFrame α :=
  let num := Scalar.toWord (f.readLocal args.first)
  let denom := Scalar.toWord (f.readLocal args.second)
  if denom = 0 ∨ (num = Scalar.bottom ∧ denom = -1) then f
  else f.setLocal args.third (Scalar.ofNat (num % denom).toNat)

end CallFrame

/-- Change the regulator of the function that best matches, if one does. -/
def Board.regulate (b : Board α) (affinity : Tag)
    (change : Registry α Nat → Handle → Option (Registry α Nat)) : Board α :=
  match b.matcher.matchBest? affinity with
  | none => b
  | some h => { b with matcher := (change b.matcher h).getD b.matcher }

/-- The regulator of the function that best matches; neutral if none does. -/
def Board.regulation (b : Board α) (affinity : Tag) : α :=
  match b.matcher.best? affinity with
  | none => 0
  | some e => e.regulator.value

/-- Built-in operations that stay within the innermost frame and the board. -/
def perform (limits : Limits α) (body : List (Instruction X)) (op : Builtin) (args : Operands)
    (affinity : Tag) (f : CallFrame α) (b : Board α) : CallFrame α × Board α :=
  let x := f.readLocal args.first
  match op with
  | .inc => (f.setLocal args.first (x + 1), b)
  | .dec => (f.setLocal args.first (x - 1), b)
  | .not => (f.setLocal args.first (Scalar.flag (x == 0)), b)
  | .add => (f.combine args (· + ·), b)
  | .sub => (f.combine args (· - ·), b)
  | .mult => (f.combine args (· * ·), b)
  | .div => (if f.readLocal args.second == 0 then f else f.combine args (· / ·), b)
  | .mod => (f.remainder args, b)
  | .testEqu => (f.combine args fun x y => Scalar.flag (x == y), b)
  | .testNEqu => (f.combine args fun x y => Scalar.flag (x != y), b)
  | .testLess => (f.combine args fun x y => Scalar.flag (decide (x < y)), b)
  | .ifBlock => (f.openBlock body .basic (x != 0), b)
  | .whileBlock => (f.openBlock body .loop (x != 0), b)
  | .countdown =>
    let f := if x != 0 then f.setLocal args.first (x - 1) else f
    (f.openBlock body .loop (x != 0), b)
  | .close => (f.closeBlock, b)
  | .breakBlock => (f.breakBlock body.length, b)
  | .setMem => (f.setLocal args.first (Scalar.ofNat args.second), b)
  | .copyMem => (f.setLocal args.first (f.readLocal args.second), b)
  | .swapMem =>
    ((f.setLocal args.first (f.readLocal args.second)).setLocal args.second x, b)
  | .input => (f.setLocal args.second (f.readInput args.first), b)
  | .output => (f.setOutput args.second x, b)
  | .commit => (f, { b with shared := b.shared.set args.second x })
  | .pull => (f.setLocal args.second (b.shared.read args.first), b)
  | .rng =>
    let (draw, rng) : α × Generator := b.rng.unit
    (f.setLocal args.first draw, { b with rng := rng })
  | .adjRegulator =>
    (f, b.regulate affinity fun r h => r.adjustRegulator? h x limits.regulatorDuration)
  | .setRegulator =>
    (f, b.regulate affinity fun r h => r.setRegulator? h x limits.regulatorDuration)
  | .senseRegulator => (f.setLocal args.first (b.regulation affinity), b)
  | .nop | .call | .ret | .fork | .terminate => (f, b)

/-- Call the function that best matches, unless the stack is full or nothing matches. -/
def Thread.call (limits : Limits α) (b : Board α) (affinity : Tag) (t : Thread α) : Thread α :=
  match t with
  | [] => []
  | caller :: rest =>
    if limits.maxCallDepth ≤ rest.length + 1 then t
    else
      match b.resolve? affinity with
      | none => t
      | some function => .enter function caller.locals :: t

/-- Set a new thread aside for the next pass, unless the machine is full or nothing matches. -/
def Board.fork (limits : Limits α) (live : Nat) (affinity : Tag) (f : CallFrame α) (b : Board α) :
    Board α :=
  if limits.maxThreads ≤ live + b.pending.length then b
  else
    match b.resolve? affinity with
    | none => b
    | some function => { b with pending := b.pending ++ [[.enter function f.locals]] }

/-- One step of a thread, where `live` threads were alive when the pass began. -/
def Thread.step (host : Host α X σ) (limits : Limits α) (program : Program X) (live : Nat)
    (t : Thread α) (b : Board α) (s : σ) : Thread α × Board α × σ :=
  match t with
  | [] => ([], b, s)
  | f :: rest =>
    match program.function? f.function with
    | none => ([], b, s)
    | some function =>
      match function.body[f.pointer]? with
      | none => (if f.blocks.isEmpty then Thread.ret t else f.closeBlock :: rest, b, s)
      | some i =>
        let f := { f with pointer := f.pointer + 1 }
        match i.op with
        | .builtin .call => (Thread.call limits b i.affinity (f :: rest), b, s)
        | .builtin .ret => (Thread.ret (f :: rest), b, s)
        | .builtin .terminate => ([], b, s)
        | .builtin .fork => (f :: rest, b.fork limits live i.affinity f, s)
        | .builtin op =>
          let (f, b) := perform limits function.body op i.args i.affinity f b
          (f :: rest, b, s)
        | .ext x =>
          let (w, s) := host.execute x ⟨i, f, program⟩ (.of f b) s
          (w.frame f :: rest, w.board b, s)

end Vivarium
