import Vivarium.Frame.Basic
/-!
# The environment pass

In a qualifying tick a frame evaluates every trigger in order. A condition that holds fires its
tag; one that is two-sided fires the complement when it does not hold. The tags then start
threads, and everything that is only in force for a while comes one tick nearer to its end.
-/
namespace Vivarium

/-- What the evaluation of one trigger comes to. -/
inductive Outcome where
  | pro
  | anti
  | silent
  deriving DecidableEq, Repr

namespace Outcome

/-- Fires only when the condition holds. -/
def oneSided (b : Bool) : Outcome := if b then pro else silent

/-- Fires either way. -/
def twoSided (b : Bool) : Outcome := if b then pro else anti

/-- Silent unless the condition can be judged. -/
def only (visible : Bool) (o : Outcome) : Outcome := if visible then o else silent

end Outcome

variable {α : Type} [Scalar α]

namespace Sensor

/-- Evaluate one trigger straight ahead; `chance` is the result of the stochastic draw. -/
def outcome (s : Sensor α) (tick : Tick) (chance : Bool) (t : Trigger) : Outcome :=
  let config := s.world.config
  let visible := config.channelsVisible
  match t with
  | .cellChild => .only visible (.oneSided (s.isCellChild 0))
  | .cellParent => .only visible (.oneSided (s.isCellParent 0))
  | .negativeResource => .oneSided (decide (s.here.stockpile.resource < 0))
  | .expiration => .oneSided (decide (config.expGracePeriod < s.here.channel.expiration 0))
  | .harvestWithdrawal => .oneSided s.here.stockpile.anyHarvested
  | .channelMate level => .only visible (.twoSided (s.isChannelMate level 0))
  | .propaguleChild => .only visible (.oneSided (s.isPropaguleChild 0))
  | .propaguleParent => .only visible (.oneSided (s.isPropaguleParent 0))
  | .neighborLive => .twoSided (s.isLive 0)
  | .neighborPoorer => .only (s.isLive 0) (.twoSided (s.neighborIsPoorer 0))
  | .neighborOlder => .only (s.isLive 0) (.twoSided (s.neighborIsOlder 0))
  | .neighborExpired level =>
    .only visible (.oneSided (decide (0 < s.neighborExpiration level 0)))
  | .update => .pro
  | .justBorn => .oneSided (s.here.family.age tick == 0)
  | .stochastic => .oneSided chance

/-- The tag that a trigger fires, if it fires. -/
def fires (s : Sensor α) (tick : Tick) (chance : Bool) (t : Trigger) : Option Tag :=
  match s.outcome tick chance t with
  | .pro => s.world.triggerTags.pro? t
  | .anti => s.world.triggerTags.anti? t
  | .silent => none

/-- The fired tags, in the order of evaluation. -/
def fired (s : Sensor α) (tick : Tick) (chance : Bool) : List Tag :=
  (Trigger.all s.world.config.nlev).filterMap (s.fires tick chance)

end Sensor

namespace Frame

/-- Draw for the stochastic trigger. -/
def drawChance (f : Frame α) (config : Config α) : Bool × Frame α :=
  let (x, rng) : α × Generator := f.cpu.board.rng.unit
  (decide (x < config.stochasticTriggerFreq),
    { f with cpu := { f.cpu with board := { f.cpu.board with rng := rng } } })

/-- Start a thread for every fired tag that matches, as long as there is room. -/
def excite (f : Frame α) (tags : List Tag) : Frame α :=
  { f with cpu := f.cpu.handle (tags.map fun tag => ⟨tag, .empty⟩) }

/-- Membrane entries and regulators come one tick nearer to their end. -/
def fade (f : Frame α) : Frame α :=
  { f with
    membrane := f.membrane.decay
    cpu := f.cpu.setMatcher f.cpu.board.matcher.decayRegulators }

/-- The reserve comes one tick nearer to its end, and pauses are lifted. -/
def relent (f : Frame α) (w : World α) : World α :=
  w.modifyControls f.pos f.facing fun c => { c with reserve := c.reserve.tryClear }.resumeAll

/-- The pass of one tick; nothing happens unless the tick qualifies. The first component lists the
fired tags. -/
def advanceEnvironment (f : Frame α) (w : World α) (tick : Tick) :
    List Tag × Frame α × World α :=
  if tick.qualifies w.config.envTrigFreq then
    let (chance, f) := f.drawChance w.config
    let tags := (f.sensor w).fired tick chance
    let w := w.modifyStockpile f.pos (·.resetHarvests w.config.nlev)
    (tags, (f.excite tags).fade, f.relent w)
  else ([], f, w)

end Frame

end Vivarium
