import Vivarium.Dish
/-!
# The demonstration

A dish with four founders of one program, run for a number of ticks. Every twentieth tick is
reported, and the end of the run.
-/
namespace Vivarium

/-- What ends a run early. -/
inductive RunError where
  | program (e : ProgramError)
  | config (e : ConfigError)
  | dish (e : DishError)
  deriving DecidableEq, Repr

def RunError.message : RunError → String
  | program e => e.message
  | config e => e.message
  | dish e => e.message

/-- What a run tells about itself. -/
inductive Report (α : Type) where
  | started (width height : UInt32)
  | progress (summary : Summary α)
  | finished (tick : Tick) (live : Nat)
  | diedOut (tick : Tick)
  /-- The run was over before its first tick. -/
  | idle
  deriving DecidableEq, Repr

/-- Reports are informative, or they warn. -/
inductive Severity where
  | info
  | warn
  deriving DecidableEq, Repr

namespace Report

variable {α : Type}

def severity : Report α → Severity
  | started .. | progress .. | finished .. => .info
  | diedOut .. | idle => .warn

def message : Report α → String
  | started .. => "Starting cellframe dish"
  | progress .. => "dish summary"
  | finished .. => "Run finished"
  | diedOut .. => "Population died out"
  | idle => "No ticks were run"

end Report

namespace Demo

variable {α : Type} [Scalar α]

def config : Config α :=
  { Config.standard with gridWidth := 24, gridHeight := 24, envTrigFreq := 2 }

/-- Founders share with living neighbours, greet them, and reproduce straight ahead when they can
afford it. -/
def founder : SourceFunction where
  affinity := .new 0
  lines := [
    line "QueryIsLive" 0 1, line "If" 1 0, line "SendSmallFracResource" 0 0, line "Output" 2 0,
    line "SendMsgExternal" 0 0, line "Close" 0 0, line "QueryOwnStockpile" 3 0,
    line "TryReproduce-Lev0" 0 0, line "IncrCellAge-Lev0" 4 0]
where
  line (mnemonic : String) (first second : Nat) : SourceLine :=
    ⟨mnemonic, ⟨first, second, 0⟩, .new 0⟩

/-- Rows and columns of the founders. -/
def lanes : List Nat := [6, 18]

def places : List Nat := lanes.flatMap fun row => lanes.map fun col => row * 24 + col

/-- Resource of every founder. -/
def allowance : α := 64

/-- Put a founder on every place. -/
def populate (program : Program FrameOp) (d : Dish α) : Except Fault (Dish α) :=
  places.foldlM (fun (d : Dish α) pos => d.seed pos program allowance) d

/-- The dish in its first state. -/
def bootstrap : Except RunError (Dish α) := do
  let config : Config α := Demo.config
  let program ← ((FrameOp.library config.nlev).assemble [founder]).mapError .program
  let dish ← (Dish.new config).mapError .config
  (populate program dish).mapError fun f => .dish (.fault f)

/-- The summaries of `n` steps. -/
def summaries : Nat → Dish α → Except DishError (List (Summary α))
  | 0, _ => .ok []
  | n + 1, d => do
    let (summary, d) ← d.step
    let rest ← summaries n d
    pure (summary :: rest)

/-- Number of ticks from one report to the next. -/
def reportEvery : UInt64 := 20

/-- The last report. -/
def verdict : Option (Summary α) → Report α
  | none => .idle
  | some s => if 0 < s.live then .finished s.tick s.live else .diedOut s.tick

/-- Run the demonstration. -/
def run (ticks : Nat) : Except RunError (List (Report α)) := do
  let dish : Dish α ← bootstrap
  let log ← (summaries ticks dish).mapError .dish
  let config := dish.world.config
  pure (.started config.gridWidth config.gridHeight ::
    ((log.filter fun s => s.tick.qualifies reportEvery).map .progress ++
      [verdict log.getLast?]))

/-- Number of ticks of a run that is not told otherwise. -/
def defaultTicks : Nat := 200

/-- The value of a string of decimal digits. -/
def digitsValue (digits : List Char) : Nat :=
  digits.foldl (fun n c => 10 * n + (c.toNat - '0'.toNat)) 0

/-- Read a 64-bit count: decimal digits, behind at most one plus sign. -/
def readCount? (s : String) : Option Nat :=
  let digits := match s.toList with
    | '+' :: rest => rest
    | digits => digits
  if digits.isEmpty || !digits.all (·.isDigit) then none
  else if digitsValue digits ≤ Word.top.toNat then some (digitsValue digits) else none

/-- Number of ticks that a setting asks for. -/
def ticks (setting : Option String) : Nat := (setting.bind readCount?).getD defaultTicks

end Demo

end Vivarium
