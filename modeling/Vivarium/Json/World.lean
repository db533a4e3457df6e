import Vivarium.Json.Program
import Vivarium.World.Basic
/-!
# Forms of the world

Settings, lineages, balances and messages. Forms are read without further checks: a stored grid
may be empty, and the lists of a stored channel may differ in length.
-/
namespace Vivarium

open Form

variable {α : Type}

instance : Form α Tick where
  encode t := encode t.count
  decode j := (decode j).map Tick.mk

instance : Form α Grid where
  encode g := .obj [("width", encode g.width), ("height", encode g.height)]
  decode j := do
    let [width, height] ← j.parts? ["width", "height"] | none
    pure ⟨← required width, ← required height⟩

instance : Form α Level where
  encode l := .obj [("expiration", encode l.expiration)]
  decode j := do
    let [expiration] ← j.parts? ["expiration"] | none
    pure ⟨← required expiration⟩

instance : Form α Positions where
  encode ps := encode ps.toList
  decode j := (decode j).map .ofList

instance : Form α Family where
  encode f := .obj [
    ("parent_pos", encode f.parent), ("child_pos", encode f.children),
    ("birth_tick", encode f.birth), ("prev_chan", encode f.prevChan)]
  decode j := do
    let [parent, children, birth, prevChan] ←
      j.parts? ["parent_pos", "child_pos", "birth_tick", "prev_chan"] | none
    pure ⟨← ifPresent parent, ← required children, ← required birth, ← ifPresent prevChan⟩

/-- The name under which a mark is stored. -/
def Apoptosis.form : Apoptosis → String
  | unmarked => "None"
  | partialDeath => "Partial"
  | completeDeath => "Complete"

/-- The mark stored under a name. -/
def Apoptosis.ofForm? : String → Option Apoptosis
  | "None" => some unmarked
  | "Partial" => some partialDeath
  | "Complete" => some completeDeath
  | _ => none

instance : Form α Apoptosis where
  encode m := .str m.form
  decode j := j.plainChoice?.bind Apoptosis.ofForm?

instance : Form α Channel where
  encode c := .obj [
    ("ids", encode c.ids), ("generations", encode c.generations), ("ages", encode c.ages),
    ("expirations", encode c.expirations)]
  decode j := do
    let [ids, generations, ages, expirations] ←
      j.parts? ["ids", "generations", "ages", "expirations"] | none
    pure ⟨← ifPresent ids, ← required generations, ← required ages, ← required expirations⟩

instance : Form α SireRecord where
  encode r := .obj [
    ("source_pos", encode r.sourcePos), ("dir", encode r.dir), ("level", encode r.level),
    ("generations", encode r.generations), ("ids", encode r.ids), ("ages", encode r.ages),
    ("prev_chan", encode r.prevChan)]
  decode j := do
    let [sourcePos, dir, level, generations, ids, ages, prevChan] ←
      j.parts? ["source_pos", "dir", "level", "generations", "ids", "ages", "prev_chan"] | none
    pure ⟨← required sourcePos, ← required dir, ← required level, ← required generations,
      ← required ids, ← required ages, ← ifPresent prevChan⟩

/-- The name under which a kind of message is stored. -/
def MessageKind.form : MessageKind → String
  | internal => "Internal"
  | external => "External"

/-- The kind of message stored under a name. -/
def MessageKind.ofForm? : String → Option MessageKind
  | "Internal" => some internal
  | "External" => some external
  | _ => none

instance : Form α MessageKind where
  encode k := .str k.form
  decode j := j.plainChoice?.bind MessageKind.ofForm?

variable [Scalar α]

instance {β : Type} [Form α β] : Form α (PerFacing β) where
  encode q := encode q.toList
  decode j := (decode j).bind PerFacing.ofList?

instance : Form α (Stockpile α) where
  encode s := .obj [
    ("resource", encode s.resource), ("harvest_withdrawals", encode s.harvested),
    ("contributions", encode s.contributions)]
  decode j := do
    let [resource, harvested, contributions] ←
      j.parts? ["resource", "harvest_withdrawals", "contributions"] | none
    pure ⟨← required resource, ← required harvested, ← required contributions⟩

instance : Form α (Reserve α) where
  encode r := .obj [("amount", encode r.amount), ("fresh", encode r.fresh)]
  decode j := do
    let [amount, fresh] ← j.parts? ["amount", "fresh"] | none
    pure ⟨← required amount, ← required fresh⟩

instance : Form α (Message α) where
  encode m := .obj [
    ("kind", encode m.kind), ("affinity", encode m.affinity), ("payload", encode m.payload),
    ("from_pos", encode m.fromPos), ("from_facing", encode m.fromFacing)]
  decode j := do
    let [kind, affinity, payload, fromPos, fromFacing] ←
      j.parts? ["kind", "affinity", "payload", "from_pos", "from_facing"] | none
    pure ⟨← required kind, ← required affinity, ← required payload, ← required fromPos,
      ← required fromFacing⟩

/-- Names of the settings, in the order in which they are stored. -/
def Config.names : List String :=
  ["seed", "grid_width", "grid_height", "nlev", "levels", "rep_thresh", "env_trig_freq",
    "exp_grace_period", "stochastic_trigger_freq", "hw_max_cores", "hw_max_call_depth",
    "channels_visible", "affinity_threshold", "membrane_bringer_duration",
    "membrane_blocker_duration", "reserve_duration", "regulator_duration"]

instance : Form α (Config α) where
  encode c := .obj (Config.names.zip [
    encode c.seed, encode c.gridWidth, encode c.gridHeight, encode c.nlev, encode c.levels,
    encode c.repThresh, encode c.envTrigFreq, encode c.expGracePeriod,
    encode c.stochasticTriggerFreq, encode c.hwMaxCores, encode c.hwMaxCallDepth,
    encode c.channelsVisible, encode c.affinityThreshold, encode c.membraneBringerDuration,
    encode c.membraneBlockerDuration, encode c.reserveDuration, encode c.regulatorDuration])
  decode j := do
    let [seed, gridWidth, gridHeight, nlev, levels, repThresh, envTrigFreq, expGracePeriod,
        stochasticTriggerFreq, hwMaxCores, hwMaxCallDepth, channelsVisible, affinityThreshold,
        bringer, blocker, reserve, regulator] ← j.parts? Config.names | none
    pure {
      seed := ← required seed
      gridWidth := ← required gridWidth
      gridHeight := ← required gridHeight
      nlev := ← required nlev
      levels := ← required levels
      repThresh := ← required repThresh
      envTrigFreq := ← required envTrigFreq
      expGracePeriod := ← required expGracePeriod
      stochasticTriggerFreq := ← required stochasticTriggerFreq
      hwMaxCores := ← required hwMaxCores
      hwMaxCallDepth := ← required hwMaxCallDepth
      channelsVisible := ← required channelsVisible
      affinityThreshold := ← required affinityThreshold
      membraneBringerDuration := ← required bringer
      membraneBlockerDuration := ← required blocker
      reserveDuration := ← required reserve
      regulatorDuration := ← required regulator }

end Vivarium
