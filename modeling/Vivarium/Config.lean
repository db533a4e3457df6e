import Vivarium.Grid
/-!
# Configuration

The settings of a dish, and what makes them valid. The checks are made in a fixed order, and the
first that fails is the error.
-/
namespace Vivarium

/-- Settings of one organizational level. -/
structure Level where
  /-- Age beyond which a channel at this level is expired. -/
  expiration : UInt64
  deriving DecidableEq, Repr

structure Config (α : Type) where
  /-- The trigger tags are drawn from the successor of this seed. -/
  seed : UInt64
  gridWidth : UInt32
  gridHeight : UInt32
  /-- Number of organizational levels. -/
  nlev : Nat
  levels : List Level
  /-- Resource debited from the parent by a reproduction. -/
  repThresh : α
  /-- Ticks divisible by this number qualify for environment triggers. -/
  envTrigFreq : UInt64
  /-- Expiration at the lowest level that is tolerated before the trigger fires. -/
  expGracePeriod : UInt64
  /-- Chance of the stochastic trigger in a qualifying tick. -/
  stochasticTriggerFreq : α
  hwMaxCores : Nat
  hwMaxCallDepth : Nat
  /-- Whether lineage triggers fire. -/
  channelsVisible : Bool
  /-- Least similarity for function and membrane matches. -/
  affinityThreshold : α
  membraneBringerDuration : UInt32
  membraneBlockerDuration : UInt32
  reserveDuration : UInt32
  regulatorDuration : UInt32
  deriving DecidableEq, Repr

/-- Threads that the environment triggers may start in one qualifying tick. -/
def triggerHeadroom : Nat := 12

/-- What makes a configuration invalid. -/
inductive ConfigError where
  | emptyGrid
  | noLevels
  | levelCount
  | noTriggerPeriod
  | badThreshold
  | badStochasticChance
  | tooFewCores
  | noCallDepth
  | badAffinity
  deriving DecidableEq, Repr

namespace ConfigError

def reason : ConfigError → String
  | emptyGrid => "grid dimensions must be non-zero"
  | noLevels => "nlev must be non-zero"
  | levelCount => "levels must hold exactly nlev entries"
  | noTriggerPeriod => "env_trig_freq must be non-zero"
  | badThreshold => "rep_thresh must be finite and non-negative"
  | badStochasticChance => "stochastic_trigger_freq must be between 0.0 and 1.0"
  | tooFewCores => "hw_max_cores must exceed the trigger core headroom"
  | noCallDepth => "hw_max_call_depth must be non-zero"
  | badAffinity => "affinity_threshold must be between 0.0 and 1.0"

def message (e : ConfigError) : String := "invalid configuration: " ++ e.reason

end ConfigError

/-- A grid that has tiles. -/
def Grid.new (width height : UInt32) : Except ConfigError Grid :=
  if width = 0 ∨ height = 0 then .error .emptyGrid else .ok ⟨width, height⟩

namespace Config

variable {α : Type} [Scalar α]

def standard : Config α where
  seed := 1
  gridWidth := 16
  gridHeight := 16
  nlev := 2
  levels := [⟨256⟩, ⟨1024⟩]
  repThresh := 8
  envTrigFreq := 4
  expGracePeriod := 0
  stochasticTriggerFreq := Scalar.ratio 1 10
  hwMaxCores := 24
  hwMaxCallDepth := 128
  channelsVisible := true
  affinityThreshold := 0
  membraneBringerDuration := 4
  membraneBlockerDuration := 4
  reserveDuration := 8
  regulatorDuration := 4

/-- The standard settings with `nlev` levels that expire alike. -/
def withLevels (nlev : Nat) (expiration : UInt64) : Config α :=
  { standard with nlev, levels := List.replicate nlev ⟨expiration⟩ }

def cellCount (c : Config α) : Nat := c.gridWidth.toNat * c.gridHeight.toNat

/-- Whether an amount lies in the unit interval. -/
def isChance (x : α) : Bool := decide (0 ≤ x) && decide (x ≤ 1)

def validate (c : Config α) : Except ConfigError Unit :=
  if c.gridWidth = 0 ∨ c.gridHeight = 0 then .error .emptyGrid
  else if c.nlev = 0 then .error .noLevels
  else if c.levels.length ≠ c.nlev then .error .levelCount
  else if c.envTrigFreq = 0 then .error .noTriggerPeriod
  else if !Scalar.isFinite c.repThresh || decide (c.repThresh < 0) then .error .badThreshold
  else if !isChance c.stochasticTriggerFreq then .error .badStochasticChance
  else if c.hwMaxCores ≤ triggerHeadroom then .error .tooFewCores
  else if c.hwMaxCallDepth = 0 then .error .noCallDepth
  else if !isChance c.affinityThreshold then .error .badAffinity
  else .ok ()

end Config

end Vivarium
