import Vivarium.Cell
/-!
# Dishes

A dish is a world and its cells, and the clock that drives them. A step visits the cells in the
order of their places three times: free tiles take in a sire and occupied ones turn theirs away,
then the living act, and last the dead are removed and every channel grows older.
-/
namespace Vivarium

structure Dish (α : Type) where
  world : World α
  /-- One cell for every tile, by place. -/
  cells : List (Cell α)
  tick : Tick

/-- What ends a step. -/
inductive DishError where
  | fault (f : Fault)
  | frame (e : FrameError)
  deriving DecidableEq, Repr

def DishError.message : DishError → String
  | fault f => f.message
  | frame e => e.message

/-- The population after a step, and what happened during it. -/
structure Summary (α : Type) where
  tick : Tick
  live : Nat
  births : Nat
  deaths : Nat
  /-- Sires that were turned away from occupied tiles. -/
  refunds : Nat
  resource : α
  pending : α
  deriving DecidableEq, Repr

variable {α : Type} [Scalar α]

namespace Dish

/-- Cells for `n` places from `pos` on. -/
def buildCells (config : Config α) : Nat → Nat → Generator → List (Cell α)
  | 0, _, _ => []
  | n + 1, pos, rng =>
    let (cell, rng) := Cell.build pos config rng
    cell :: buildCells config n (pos + 1) rng

/-- An empty dish. -/
def new (config : Config α) : Except ConfigError (Dish α) := do
  let world ← World.new config
  pure {
    world
    cells := buildCells config world.size 0 (.ofSeed (config.seed + 2))
    tick := .zero }

/-- Put a founder on a tile, with a program and resource from outside the dish. -/
def seed (d : Dish α) (pos : Nat) (program : Program FrameOp) (resource : α) :
    Except Fault (Dish α) :=
  match d.cells[pos]? with
  | none => .error (.noTile pos)
  | some cell =>
    let world := (d.world.found pos d.tick).modifyStockpile pos (·.grow resource)
    let (cell, world) := cell.load program world
    .ok { d with world, cells := d.cells.set pos cell }

/-- Births and refunds of a step so far. -/
structure Intake where
  births : Nat
  refunds : Nat

/-- An occupied tile turns its sires away; a free one settles the first. -/
def takeIn (tick : Tick) (cell : Cell α) (w : World α) :
    Except Fault (Intake × Cell α × World α) :=
  if (w.tile cell.pos).live then do
    let (refunds, w) ← w.refundIntake cell.pos
    pure (⟨0, refunds⟩, cell, w)
  else do
    let (settled, cell, w) ← cell.settle tick w
    pure (⟨if settled then 1 else 0, 0⟩, cell, w)

/-- A living cell goes through its environment pass, reads its messages and runs. -/
def act (tick : Tick) (cell : Cell α) (w : World α) :
    Except FrameError (Cell α × World α) :=
  if (w.tile cell.pos).live then
    let (_, cell, w) := cell.advanceEnvironment tick w
    let (cell, w) := cell.queueMessages w
    match cell.stepOnce w with
    | (none, cell, w) => .ok (cell, w)
    | (some e, _, _) => .error e
  else .ok (cell, w)

/-- A marked cell is removed, and its tile's channel ages; the first component counts the dead. -/
def retire (cell : Cell α) (w : World α) : Nat × Cell α × World α :=
  let (mark, w) := w.applyApoptosis cell.pos
  match mark with
  | .unmarked => (0, cell, w.modifyChannel cell.pos (·.advanceAges 1))
  | _ =>
    let (cell, w) := cell.reset w
    (1, cell, w.modifyChannel cell.pos (·.advanceAges 1))

/-- The first visit: births and refunds, and the cells and the world afterwards. -/
def intakePhase (tick : Tick) :
    List (Cell α) → World α → Except Fault (Intake × List (Cell α) × World α)
  | [], w => .ok (⟨0, 0⟩, [], w)
  | cell :: rest, w => do
    let (here, cell, w) ← takeIn tick cell w
    let (later, rest, w) ← intakePhase tick rest w
    pure (⟨here.births + later.births, here.refunds + later.refunds⟩, cell :: rest, w)

/-- The second visit. -/
def actPhase (tick : Tick) :
    List (Cell α) → World α → Except FrameError (List (Cell α) × World α)
  | [], w => .ok ([], w)
  | cell :: rest, w => do
    let (cell, w) ← act tick cell w
    let (rest, w) ← actPhase tick rest w
    pure (cell :: rest, w)

/-- The third visit, with the number of deaths. -/
def deathPhase : List (Cell α) → World α → Nat × List (Cell α) × World α
  | [], w => (0, [], w)
  | cell :: rest, w =>
    let (here, cell, w) := retire cell w
    let (later, rest, w) := deathPhase rest w
    (here + later, cell :: rest, w)

/-- One step of the clock. -/
def step (d : Dish α) : Except DishError (Summary α × Dish α) := do
  let (intake, cells, world) ← (intakePhase d.tick d.cells d.world).mapError .fault
  let (cells, world) ← (actPhase d.tick cells world).mapError .frame
  let (deaths, cells, world) := deathPhase cells world
  pure ({
      tick := d.tick
      live := world.liveCount
      births := intake.births
      deaths
      refunds := intake.refunds
      resource := world.totalResource
      pending := world.pendingEndowment },
    { world, cells, tick := d.tick.next })

end Dish

end Vivarium
