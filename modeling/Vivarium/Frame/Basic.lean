import Vivarium.Machine.Process
import Vivarium.Membrane
import Vivarium.World.Sensing
/-!
# Frames

A frame is the machine that looks out of one side of a cell. Its reserve, pauses, inbox switch and
inbox are kept by the world, where sibling and neighbouring frames can reach them.
-/
namespace Vivarium

structure Frame (α : Type) where
  pos : Nat
  facing : Direction
  cpu : Machine α FrameOp
  membrane : Membrane α
  /-- Direction of the latest outbound message. -/
  msgDir : Direction

/-- What a frame may be asked too early. -/
inductive FrameError where
  | noProgram (pos : Nat) (facing : Direction)
  deriving DecidableEq, Repr

def FrameError.message : FrameError → String
  | noProgram pos facing =>
    "frame at " ++ Nat.repr pos ++ " facing " ++ Nat.repr facing.val ++ " has no program loaded"

variable {α : Type} [Scalar α]

/-- The limits that a configuration sets for machines. -/
def Config.limits (c : Config α) : Limits α :=
  ⟨c.hwMaxCores, c.hwMaxCallDepth, c.affinityThreshold, c.regulatorDuration⟩

namespace Frame

def build (pos : Nat) (facing : Direction) (config : Config α) (rng : Generator) : Frame α :=
  ⟨pos, facing, .new rng config.limits, .empty config.affinityThreshold, facing⟩

/-- A frame without a program. -/
def new (pos : Nat) (facing : Direction) (config : Config α) (rng : Generator) :
    Except ConfigError (Frame α) := do
  config.validate
  pure (build pos facing config rng)

def sensor (f : Frame α) (w : World α) : Sensor α := ⟨w, f.pos, f.facing⟩

def hasProgram (f : Frame α) : Bool := f.cpu.hasProgram

def setProgram (f : Frame α) (program : Program FrameOp) : Frame α :=
  { f with cpu := f.cpu.load program }

/-- A frame without program, threads, memory and membrane entries. -/
def blank (f : Frame α) : Frame α :=
  { f with cpu := f.cpu.reset.unload, membrane := f.membrane.clear, msgDir := f.facing }

/-- Blank the frame, and its controls and inbox with it. -/
def reset (f : Frame α) (w : World α) : Frame α × World α :=
  (f.blank, (w.modifyControls f.pos f.facing (·.reset)).modifyInbox f.pos f.facing fun _ => [])

/-- Hand the admitted messages to the machine, unless the inbox is switched off; either way the
inbox is empty afterwards. -/
def queueMessages (f : Frame α) (w : World α) : Frame α × World α :=
  let messages :=
    if (w.controls f.pos f.facing).inboxActive then
      (w.inbox f.pos f.facing).filter fun m => f.membrane.admits m.affinity
    else []
  ({ f with cpu := f.cpu.enqueue (messages.map (·.event)) },
    w.modifyInbox f.pos f.facing fun _ => [])

end Frame

end Vivarium
