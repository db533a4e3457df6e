import Vivarium.Frame.Basic
import Vivarium.World.Reproduction
/-!
# Execution

How a frame carries out the environment instructions of its program. Whatever the operands hold,
the frame reaches its own cell and the four tiles around it, and no others.
-/
namespace Vivarium

variable {α : Type} [Scalar α]

/-- The fractions of the balance that the two sending instructions move. -/
def bigFraction : α := Scalar.ratio 1 2
def smallFraction : α := Scalar.ratio 2 100

namespace World

/-- Move a fraction of the balance to a live neighbour. -/
def sendResource (w : World α) (pos : Nat) (dir : Direction) (fraction : α) : World α :=
  let target := w.neighbor pos dir
  if (w.tile target).live then
    let (amount, stockpile) := (w.tile pos).stockpile.requestFraction fraction
    (w.modifyStockpile pos fun _ => stockpile).modifyStockpile target
      (·.contribute amount dir.opposite)
  else w

/-- Half the reproduction threshold, by which the reserve instructions shift a reserve. -/
def reserveStep (w : World α) : α := w.config.repThresh / 2

/-- Shift the reserve of a frame for as long as the configuration says. -/
def adjustReserve (w : World α) (pos : Nat) (facing : Direction) (delta : α) : World α :=
  w.modifyControls pos facing fun c =>
    { c with reserve := c.reserve.adjust delta w.config.reserveDuration }

/-- Put a message into the inbox of a frame of the same cell. -/
def sendInternal (w : World α) (pos : Nat) (facing dir : Direction) (affinity : Tag)
    (payload : Memory α) : World α :=
  w.deliver pos dir ⟨.internal, affinity, payload, pos, facing⟩

/-- Put a message into the inbox of the neighbour's frame that faces back, if the neighbour lives. -/
def sendExternal (w : World α) (pos : Nat) (facing dir : Direction) (affinity : Tag)
    (payload : Memory α) : World α :=
  let target := w.neighbor pos dir
  if (w.tile target).live then
    w.deliver target dir.opposite ⟨.external, affinity, payload, pos, facing⟩
  else w

end World

/-- What environment instructions act on, beside the memories of the thread. -/
structure Surroundings (α : Type) where
  world : World α
  membrane : Membrane α
  msgDir : Direction

namespace Surroundings

def modifyWorld (s : Surroundings α) (f : World α → World α) : Surroundings α :=
  { s with world := f s.world }

/-- Send inside the cell, and remember the way. -/
def sendInternal (s : Surroundings α) (pos : Nat) (facing : Direction) (affinity : Tag)
    (payload : Memory α) (dir : Direction) : Surroundings α :=
  { s with world := s.world.sendInternal pos facing dir affinity payload, msgDir := dir }

/-- Send to a neighbour, and remember the way even if nobody lives there. -/
def sendExternal (s : Surroundings α) (pos : Nat) (facing : Direction) (affinity : Tag)
    (payload : Memory α) (dir : Direction) : Surroundings α :=
  { s with world := s.world.sendExternal pos facing dir affinity payload, msgDir := dir }

end Surroundings

/-- Where an environment instruction is carried out, and on what operands. -/
structure Call (α : Type) where
  pos : Nat
  facing : Direction
  /-- Address of the direction, and of the result of questions about the own cell. -/
  first : Nat
  /-- Address of the result of questions about a neighbour. -/
  second : Nat
  affinity : Tag
  relative : α
  /-- Output memory of the thread. -/
  outputs : Memory α
  program : Program FrameOp

namespace Call

def dir (c : Call α) : Direction := c.facing.turn c.relative

def sensor (c : Call α) (w : World α) : Sensor α := ⟨w, c.pos, c.facing⟩

/-- The effect of an instruction without a level. -/
def act (c : Call α) (op : PlainAct) (s : Surroundings α) : Surroundings α :=
  match op with
  | .sendMsgInternal => s.sendInternal c.pos c.facing c.affinity c.outputs c.dir
  | .bcstMsgInternal =>
    (Direction.all.filter (· != c.facing)).foldl
      (fun s d => s.sendInternal c.pos c.facing c.affinity c.outputs d) s
  | .sendMsgExternal => s.sendExternal c.pos c.facing c.affinity c.outputs c.dir
  | .bcstMsgExternal =>
    Direction.all.foldl (fun s d => s.sendExternal c.pos c.facing c.affinity c.outputs d) s
  | .incrStockpileReserve =>
    s.modifyWorld fun w => w.adjustReserve c.pos c.dir w.reserveStep
  | .decrStockpileReserve =>
    s.modifyWorld fun w => w.adjustReserve c.pos c.dir (0 - w.reserveStep)
  | .pauseReprAll => s.modifyWorld fun w => w.modifyControls c.pos c.dir (·.pauseAll)
  | .resumeReprAll => s.modifyWorld fun w => w.modifyControls c.pos c.dir (·.resumeAll)
  | .activateInbox => s.modifyWorld fun w => w.modifyControls c.pos c.dir (·.setInbox true)
  | .deactivateInbox => s.modifyWorld fun w => w.modifyControls c.pos c.dir (·.setInbox false)
  | .sendBigFracResource => s.modifyWorld fun w => w.sendResource c.pos c.dir bigFraction
  | .sendSmallFracResource => s.modifyWorld fun w => w.sendResource c.pos c.dir smallFraction
  | .doApoptosisComplete => s.modifyWorld fun w => w.setMark c.pos .completeDeath
  | .doApoptosisPartial => s.modifyWorld fun w => w.setMark c.pos .partialDeath
  | .putMembraneBringer =>
    { s with
      membrane := s.membrane.registerBringer c.affinity s.world.config.membraneBringerDuration }
  | .putMembraneBlocker =>
    { s with
      membrane := s.membrane.registerBlocker c.affinity s.world.config.membraneBlockerDuration }
  | .queryOwnStockpile | .queryIsLive | .queryIsOccupied | .queryIsCellChild | .queryIsCellParent
  | .queryIsPropaguleChild | .queryIsPropaguleParent | .queryFacingStockpile => s

/-- The answer to a question without a level: an address and what to store there. -/
def ask (c : Call α) (op : PlainAct) (w : World α) : Option (Nat × α) :=
  let s := c.sensor w
  match op with
  | .queryOwnStockpile => some (c.first, s.here.stockpile.resource)
  | .queryIsLive => some (c.second, Scalar.flag (s.isLive c.relative))
  | .queryIsOccupied => some (c.second, Scalar.flag (s.isOccupied c.relative))
  | .queryIsCellChild => some (c.second, Scalar.flag (s.isCellChild c.relative))
  | .queryIsCellParent => some (c.second, Scalar.flag (s.isCellParent c.relative))
  | .queryIsPropaguleChild => some (c.second, Scalar.flag (s.isPropaguleChild c.relative))
  | .queryIsPropaguleParent => some (c.second, Scalar.flag (s.isPropaguleParent c.relative))
  | .queryFacingStockpile => some (c.second, (s.facingStockpile c.relative).getD 0)
  | _ => none

/-- The effect of an instruction of one level. -/
def actAt (c : Call α) (op : LeveledAct) (level : Nat) (s : Surroundings α) : Surroundings α :=
  match op with
  | .pauseRepr => s.modifyWorld fun w => w.modifyControls c.pos c.dir (·.pause level)
  | .resumeRepr => s.modifyWorld fun w => w.modifyControls c.pos c.dir (·.resume level)
  | .tryReproduce =>
    s.modifyWorld fun w => (w.tryReproduce c.pos c.facing c.relative level c.program).2
  | .incrCellAge =>
    s.modifyWorld fun w => w.modifyChannel c.pos (·.incrementAge level (1 + c.relative))
  | .queryChannelGen | .queryFacingChannelMate | .queryFacingChannel => s

/-- The answer to a question about one level. A live neighbour without an identifier leaves the
memory as it is. -/
def askAt (c : Call α) (op : LeveledAct) (level : Nat) (w : World α) : Option (Nat × α) :=
  let s := c.sensor w
  match op with
  | .queryChannelGen =>
    some (c.first, Scalar.ofNat (s.here.channel.generation level).toNat)
  | .queryFacingChannelMate => some (c.second, Scalar.flag (s.isChannelMate level c.relative))
  | .queryFacingChannel =>
    match s.facingChannel level c.relative with
    | some (some id) => some (c.second, Scalar.ofNat id.toNat)
    | some none => none
    | none => some (c.second, 0)
  | _ => none

end Call

/-- Store an answer, if there is one. -/
def Scratch.store (m : Scratch α) : Option (Nat × α) → Scratch α
  | some (a, x) => { m with locals := m.locals.set a x }
  | none => m

/-- The host that carries out environment instructions for one frame. -/
def environment (pos : Nat) (facing : Direction) : Host α FrameOp (Surroundings α) where
  execute op site m s :=
    let args := site.instruction.args
    let c : Call α :=
      ⟨pos, facing, args.first, args.second, site.instruction.affinity,
        m.locals.read args.first, m.outputs, site.program⟩
    match op with
    | .plain op => (m.store (c.ask op s.world), c.act op s)
    | .leveled op level => (m.store (c.askAt op level s.world), c.actAt op level s)

namespace Frame

/-- One pass of the frame's machine. -/
def execute (f : Frame α) (w : World α) : Frame α × World α :=
  let (cpu, s) := f.cpu.process (environment f.pos f.facing) ⟨w, f.membrane, f.msgDir⟩
  ({ f with cpu, membrane := s.membrane, msgDir := s.msgDir }, s.world)

/-- One pass, which a frame without a program refuses. -/
def stepOnce (f : Frame α) (w : World α) : Except FrameError (Frame α × World α) :=
  if f.hasProgram then .ok (f.execute w) else .error (.noProgram f.pos f.facing)

end Frame

end Vivarium
