import Vivarium.Tag
import Vivarium.Fault
/-!
# Environment triggers

The conditions that are evaluated in every qualifying tick. Each has a slot in a table of tags:
one tag says that the condition holds, and its complement that it does not.
-/
namespace Vivarium

inductive Trigger where
  | cellChild
  | cellParent
  | negativeResource
  | expiration
  | harvestWithdrawal
  | channelMate (level : Nat)
  | propaguleChild
  | propaguleParent
  | neighborLive
  | neighborPoorer
  | neighborOlder
  | neighborExpired (level : Nat)
  | update
  | justBorn
  | stochastic
  deriving DecidableEq, Repr

namespace Trigger

/-- Number of slots. -/
def count (nlev : Nat) : Nat := 13 + 2 * nlev

/-- Place in the table of tags. -/
def slot (nlev : Nat) : Trigger → Nat
  | cellChild => 0
  | cellParent => 1
  | negativeResource => 2
  | expiration => 3
  | harvestWithdrawal => 4
  | channelMate level => 5 + level
  | propaguleChild => 5 + nlev
  | propaguleParent => 6 + nlev
  | neighborLive => 7 + nlev
  | neighborPoorer => 8 + nlev
  | neighborOlder => 9 + nlev
  | neighborExpired level => 10 + nlev + level
  | update => 10 + 2 * nlev
  | justBorn => 11 + 2 * nlev
  | stochastic => 12 + 2 * nlev

/-- Every trigger in the order of evaluation. -/
def all (nlev : Nat) : List Trigger :=
  [cellChild, cellParent, negativeResource, expiration, harvestWithdrawal] ++
  (List.range nlev).map channelMate ++
  [propaguleChild, propaguleParent, neighborLive, neighborPoorer, neighborOlder] ++
  (List.range nlev).map neighborExpired ++
  [update, justBorn, stochastic]

theorem length_all (nlev : Nat) : (all nlev).length = count nlev := by
  simp [all, count]; omega

def label : Trigger → String
  | cellChild => "CellChild"
  | cellParent => "CellParent"
  | negativeResource => "NegativeResource"
  | expiration => "Expiration"
  | harvestWithdrawal => "HarvestWithdrawal"
  | channelMate level => "ChannelMate(" ++ Nat.repr level ++ ")"
  | propaguleChild => "PropaguleChild"
  | propaguleParent => "PropaguleParent"
  | neighborLive => "NeighborLive"
  | neighborPoorer => "NeighborPoorer"
  | neighborOlder => "NeighborOlder"
  | neighborExpired level => "NeighborExpired(" ++ Nat.repr level ++ ")"
  | update => "Update"
  | justBorn => "JustBorn"
  | stochastic => "Stochastic"

/-- The trigger of a name, given the level if the name takes one. -/
def ofName? : String → Option Nat → Option Trigger
  | "CellChild", none => some cellChild
  | "CellParent", none => some cellParent
  | "NegativeResource", none => some negativeResource
  | "Expiration", none => some expiration
  | "HarvestWithdrawal", none => some harvestWithdrawal
  | "ChannelMate", some level => some (channelMate level)
  | "PropaguleChild", none => some propaguleChild
  | "PropaguleParent", none => some propaguleParent
  | "NeighborLive", none => some neighborLive
  | "NeighborPoorer", none => some neighborPoorer
  | "NeighborOlder", none => some neighborOlder
  | "NeighborExpired", some level => some (neighborExpired level)
  | "Update", none => some update
  | "JustBorn", none => some justBorn
  | "Stochastic", none => some stochastic
  | _, _ => none

end Trigger

structure TriggerTags where
  nlev : Nat
  /-- Tags of the conditions, by slot. -/
  pros : Array Tag
  /-- Their complements, by slot. -/
  antis : Array Tag
  deriving DecidableEq

namespace TriggerTags

/-- The given number of random tags. -/
def tags (n : Nat) (g : Generator) : List Tag := (g.draw n).1.map Tag.new

/-- The table of a dish, drawn from the successor of its seed. -/
def new (seed : UInt64) (nlev : Nat) : TriggerTags :=
  let pros := tags (Trigger.count nlev) (.ofSeed (seed + 1))
  ⟨nlev, pros.toArray, (pros.map (·.toggled)).toArray⟩

def size (t : TriggerTags) : Nat := t.pros.size

/-- The tag fired when a condition holds; a level out of range may have no slot. -/
def pro? (t : TriggerTags) (trigger : Trigger) : Option Tag := t.pros[trigger.slot t.nlev]?

/-- The tag fired when a two-sided condition does not hold. -/
def anti? (t : TriggerTags) (trigger : Trigger) : Option Tag := t.antis[trigger.slot t.nlev]?

/-- The first trigger that has the tag, and whether the tag says that the condition holds. -/
def meaning? (t : TriggerTags) (tag : Tag) : Option (Trigger × Bool) :=
  (Trigger.all t.nlev).findSome? fun trigger =>
    if t.pro? trigger = some tag then some (trigger, true)
    else if t.anti? trigger = some tag then some (trigger, false)
    else none

/-- Both tags of a trigger, or the slot that is missing. -/
def both (t : TriggerTags) (trigger : Trigger) : Except Fault (Tag × Tag) :=
  match t.pro? trigger, t.anti? trigger with
  | some pro, some anti => .ok (pro, anti)
  | _, _ => .error (.noTrigger (trigger.slot t.nlev))

end TriggerTags

end Vivarium
