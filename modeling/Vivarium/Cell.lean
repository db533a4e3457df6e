import Vivarium.Frame.Environment
import Vivarium.Frame.Execution
import Vivarium.World.Settlement
/-!
# Cells

The four frames of one tile. They run the same program from one load to the next, each on its own
generator, and act in clockwise order from up.
-/
namespace Vivarium

structure Cell (α : Type) where
  pos : Nat
  frames : PerFacing (Frame α)

variable {α : Type} [Scalar α]

namespace Cell

/-- Frames without a program; each draws the seed of its generator. -/
def build (pos : Nat) (config : Config α) (rng : Generator) : Cell α × Generator :=
  let (a, rng) := rng.next
  let (b, rng) := rng.next
  let (c, rng) := rng.next
  let (d, rng) := rng.next
  let frame (facing : Direction) (seed : UInt64) : Frame α :=
    .build pos facing config (.ofSeed seed)
  (⟨pos, frame .up a, frame .right b, frame .down c, frame .left d⟩, rng)

def new (pos : Nat) (config : Config α) (rng : Generator) :
    Except ConfigError (Cell α × Generator) := do
  config.validate
  pure (build pos config rng)

def frame (c : Cell α) (facing : Direction) : Frame α := c.frames.get facing

def setFrame (c : Cell α) (facing : Direction) (f : Frame α) : Cell α :=
  { c with frames := c.frames.set facing f }

/-- Every frame in turn acts on the world. -/
def sweep (c : Cell α) (act : Frame α → World α → Frame α × World α) (w : World α) :
    Cell α × World α :=
  let (frames, w) := c.frames.walk act w
  ({ c with frames }, w)

/-- Blank every frame. -/
def reset (c : Cell α) (w : World α) : Cell α × World α := c.sweep Frame.reset w

/-- Blank every frame and give it the program. -/
def load (c : Cell α) (program : Program FrameOp) (w : World α) : Cell α × World α :=
  c.sweep (fun f w => ((f.reset w).1.setProgram program, (f.reset w).2)) w

def hasProgram (c : Cell α) : Bool := c.frames.toList.all (·.hasProgram)

/-- The environment pass of every frame; the first component lists the fired tags. -/
def advanceEnvironment (c : Cell α) (tick : Tick) (w : World α) :
    List Tag × Cell α × World α :=
  let (frames, tags, w) := c.frames.walk (fun f (tags, w) =>
    let (fired, f, w) := f.advanceEnvironment w tick
    (f, tags ++ fired, w)) ([], w)
  (tags, { c with frames }, w)

def queueMessages (c : Cell α) (w : World α) : Cell α × World α := c.sweep Frame.queueMessages w

/-- One pass of each of the given frames; the first that has no program ends the walk. What was
done before stays done. -/
def stepFrames : List Direction → Cell α → World α → Option FrameError × Cell α × World α
  | [], c, w => (none, c, w)
  | d :: rest, c, w =>
    match (c.frame d).stepOnce w with
    | .ok (f, w) => stepFrames rest (c.setFrame d f) w
    | .error e => (some e, c, w)

/-- One pass of all four frames. -/
def stepOnce (c : Cell α) (w : World α) : Option FrameError × Cell α × World α :=
  stepFrames Direction.all c w

/-- Settle the first sire that waits for the tile and load its program; the first component tells
whether one waited. -/
def settle (c : Cell α) (tick : Tick) (w : World α) : Except Fault (Bool × Cell α × World α) := do
  match ← w.settleSire c.pos tick with
  | (none, w) => pure (false, c, w)
  | (some program, w) => pure (true, c.load program w)

end Cell

end Vivarium
