import Vivarium.World.Basic
/-!
# Reproduction

A cell reproduces at the first unexpired level from the one it asks for, provided no level on the
way is paused and its balance covers the threshold and the frame's reserve. The threshold is
debited and travels with the sire to the target tile.
-/
namespace Vivarium

/-- The first of `n` levels from `level` that is not expired, unless a paused one comes before it
or is it. -/
def firstOpen (paused expired : Nat → Bool) : Nat → Nat → Option Nat
  | 0, _ => none
  | n + 1, level =>
    if paused level then none
    else if expired level then firstOpen paused expired n (level + 1)
    else some level

namespace World

variable {α : Type} [Scalar α]

/-- The balance covers the threshold and the frame's reserve. -/
def canAfford (w : World α) (pos : Nat) (facing : Direction) : Bool :=
  !decide ((w.tile pos).stockpile.resource <
    w.config.repThresh + (w.controls pos facing).reserve.amount)

/-- Level at which a frame would reproduce, starting from the given one. -/
def reproductionLevel? (w : World α) (pos : Nat) (facing : Direction) (level : Nat) : Option Nat :=
  if w.canAfford pos facing then
    firstOpen (w.controls pos facing).isPaused (w.tile pos).channel.isExpired
      (w.config.nlev + 1 - level) level
  else none

/-- The propagule an offspring descends from: that of its parent, or its parent's own when the
reproduction takes place above all levels. -/
def propagule (w : World α) (pos level : Nat) : Option ChannelId :=
  if level < w.config.nlev then (w.tile pos).family.prevChan
  else (w.tile pos).channel.id? (w.config.nlev - 1)

/-- The lineage that an offspring of `pos` takes along. -/
def record (w : World α) (pos : Nat) (dir : Direction) (level : Nat) : SireRecord where
  sourcePos := pos
  dir := dir
  level := level
  generations := (w.tile pos).channel.generations
  ids := (w.tile pos).channel.ids.getD []
  ages := (w.tile pos).channel.ages
  prevChan := w.propagule pos level

/-- Try to reproduce; the first component is the level used. -/
def tryReproduce (w : World α) (pos : Nat) (facing : Direction) (relative : α) (level : Nat)
    (program : Program FrameOp) : Option Nat × World α :=
  match w.reproductionLevel? pos facing level with
  | none => (none, w)
  | some used =>
    let (endowment, stockpile) := (w.tile pos).stockpile.request w.config.repThresh
    let dir := facing.turn relative
    let sire : Sire α FrameOp := ⟨w.record pos dir used, program, endowment⟩
    let target := w.neighbor pos dir
    (some used, (w.modifyStockpile pos fun _ => stockpile).receive target sire)

end World

end Vivarium
