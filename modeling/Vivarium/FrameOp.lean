import Vivarium.Program.Library
/-!
# Environment instructions

The extension through which a program reaches its cell and the neighbouring tiles. Unless the
description says otherwise, the first operand is the address of a direction relative to the way
the frame faces. Some instructions exist once for every organizational level; their names end in
the number of the level.
-/
namespace Vivarium

/-- Instructions without a level. -/
inductive PlainAct where
  | sendMsgInternal | bcstMsgInternal | sendMsgExternal | bcstMsgExternal
  | incrStockpileReserve | decrStockpileReserve
  | pauseReprAll | resumeReprAll
  | activateInbox | deactivateInbox
  | sendBigFracResource | sendSmallFracResource
  | doApoptosisComplete | doApoptosisPartial
  | putMembraneBringer | putMembraneBlocker
  | queryOwnStockpile
  | queryIsLive | queryIsOccupied | queryIsCellChild | queryIsCellParent
  | queryIsPropaguleChild | queryIsPropaguleParent
  | queryFacingStockpile
  deriving DecidableEq, Repr

/-- Instructions that exist for every level. -/
inductive LeveledAct where
  | pauseRepr | resumeRepr | tryReproduce | incrCellAge
  | queryChannelGen | queryFacingChannelMate | queryFacingChannel
  deriving DecidableEq, Repr

inductive FrameOp where
  | plain (act : PlainAct)
  | leveled (act : LeveledAct) (level : Nat)
  deriving DecidableEq, Repr

namespace PlainAct

def all : List PlainAct :=
  [sendMsgInternal, bcstMsgInternal, sendMsgExternal, bcstMsgExternal,
    incrStockpileReserve, decrStockpileReserve, pauseReprAll, resumeReprAll,
    activateInbox, deactivateInbox, sendBigFracResource, sendSmallFracResource,
    doApoptosisComplete, doApoptosisPartial, putMembraneBringer, putMembraneBlocker,
    queryOwnStockpile, queryIsLive, queryIsOccupied, queryIsCellChild, queryIsCellParent,
    queryIsPropaguleChild, queryIsPropaguleParent, queryFacingStockpile]

/-- The name under which the instruction is stored. -/
def form : PlainAct → String
  | sendMsgInternal => "SendMsgInternal"
  | bcstMsgInternal => "BcstMsgInternal"
  | sendMsgExternal => "SendMsgExternal"
  | bcstMsgExternal => "BcstMsgExternal"
  | incrStockpileReserve => "IncrStockpileReserve"
  | decrStockpileReserve => "DecrStockpileReserve"
  | pauseReprAll => "PauseReprAll"
  | resumeReprAll => "ResumeReprAll"
  | activateInbox => "ActivateInbox"
  | deactivateInbox => "DeactivateInbox"
  | sendBigFracResource => "SendBigFracResource"
  | sendSmallFracResource => "SendSmallFracResource"
  | doApoptosisComplete => "DoApoptosisComplete"
  | doApoptosisPartial => "DoApoptosisPartial"
  | putMembraneBringer => "PutMembraneBringer"
  | putMembraneBlocker => "PutMembraneBlocker"
  | queryOwnStockpile => "QueryOwnStockpile"
  | queryIsLive => "QueryIsLive"
  | queryIsOccupied => "QueryIsOccupied"
  | queryIsCellChild => "QueryIsCellChild"
  | queryIsCellParent => "QueryIsCellParent"
  | queryIsPropaguleChild => "QueryIsPropaguleChild"
  | queryIsPropaguleParent => "QueryIsPropaguleParent"
  | queryFacingStockpile => "QueryFacingStockpile"

/-- The mnemonic. An instruction for all levels is named like those for one, without the level. -/
def name : PlainAct → String
  | pauseReprAll => "PauseRepr"
  | resumeReprAll => "ResumeRepr"
  | act => act.form

def arity : PlainAct → Nat
  | bcstMsgInternal | bcstMsgExternal | doApoptosisComplete | doApoptosisPartial
  | putMembraneBringer | putMembraneBlocker => 0
  | queryIsLive | queryIsOccupied | queryIsCellChild | queryIsCellParent
  | queryIsPropaguleChild | queryIsPropaguleParent | queryFacingStockpile => 2
  | _ => 1

def description : PlainAct → String
  | sendMsgInternal => "Send output memory to the sibling frame in direction Arg1."
  | bcstMsgInternal => "Send output memory to every sibling frame."
  | sendMsgExternal => "Send output memory to the neighbour in direction Arg1."
  | bcstMsgExternal => "Send output memory to every neighbour."
  | incrStockpileReserve =>
    "Raise the reserve of frame Arg1 by half the reproduction threshold."
  | decrStockpileReserve =>
    "Lower the reserve of frame Arg1 by half the reproduction threshold."
  | pauseReprAll => "Pause reproduction at every level for frame Arg1."
  | resumeReprAll => "Resume reproduction at every level for frame Arg1."
  | activateInbox => "Accept messages on frame Arg1."
  | deactivateInbox => "Discard messages on frame Arg1."
  | sendBigFracResource => "Give half of own resource to live neighbour Arg1."
  | sendSmallFracResource => "Give two percent of own resource to live neighbour Arg1."
  | doApoptosisComplete => "Mark this cell for complete apoptosis."
  | doApoptosisPartial => "Mark this cell for partial apoptosis."
  | putMembraneBringer => "Admit messages matching the affinity for a while."
  | putMembraneBlocker => "Block messages matching the affinity for a while."
  | queryOwnStockpile => "Own resource => Local memory Arg1."
  | queryIsLive => "Is neighbour Arg1 live => Local memory Arg2."
  | queryIsOccupied => "Does neighbour Arg1 hold a channel => Local memory Arg2."
  | queryIsCellChild => "Is this cell the child of neighbour Arg1 => Local memory Arg2."
  | queryIsCellParent => "Is this cell the parent of neighbour Arg1 => Local memory Arg2."
  | queryIsPropaguleChild =>
    "Does this cell descend from neighbour Arg1's propagule => Local memory Arg2."
  | queryIsPropaguleParent =>
    "Does neighbour Arg1 descend from this cell's propagule => Local memory Arg2."
  | queryFacingStockpile => "Resource of neighbour Arg1 => Local memory Arg2."

theorem mem_all (act : PlainAct) : act ∈ all := by cases act <;> decide

end PlainAct

namespace LeveledAct

def all : List LeveledAct :=
  [pauseRepr, resumeRepr, tryReproduce, incrCellAge, queryChannelGen, queryFacingChannelMate,
    queryFacingChannel]

/-- The name without its level. -/
def form : LeveledAct → String
  | pauseRepr => "PauseRepr"
  | resumeRepr => "ResumeRepr"
  | tryReproduce => "TryReproduce"
  | incrCellAge => "IncrCellAge"
  | queryChannelGen => "QueryChannelGen"
  | queryFacingChannelMate => "QueryFacingChannelMate"
  | queryFacingChannel => "QueryFacingChannel"

def arity : LeveledAct → Nat
  | queryFacingChannelMate | queryFacingChannel => 2
  | _ => 1

def description : LeveledAct → String
  | pauseRepr => "Pause reproduction at this level for frame Arg1."
  | resumeRepr => "Resume reproduction at this level for frame Arg1."
  | tryReproduce =>
    "Reproduce into neighbour Arg1 at this level or the first unexpired one above."
  | incrCellAge => "Age own channel at this level by 1 + Arg1."
  | queryChannelGen => "Own generation at this level => Local memory Arg1."
  | queryFacingChannelMate =>
    "Does neighbour Arg1 share this level's channel => Local memory Arg2."
  | queryFacingChannel => "Channel id of neighbour Arg1 at this level => Local memory Arg2."

theorem mem_all (act : LeveledAct) : act ∈ all := by cases act <;> decide

end LeveledAct

namespace FrameOp

def name : FrameOp → String
  | plain act => act.name
  | leveled act level => act.form ++ "-Lev" ++ Nat.repr level

instance : Extension FrameOp where
  name := name
  arity
    | plain act => act.arity
    | leveled act _ => act.arity
  description
    | plain act => act.description
    | leveled act _ => act.description

/-- Every environment instruction of a dish with `nlev` levels. -/
def catalogue (nlev : Nat) : List FrameOp :=
  [.sendMsgInternal, .bcstMsgInternal, .incrStockpileReserve, .decrStockpileReserve].map plain ++
  (List.range (nlev + 1)).map (leveled .pauseRepr) ++
  (List.range (nlev + 1)).map (leveled .resumeRepr) ++
  [.pauseReprAll, .resumeReprAll, .activateInbox, .deactivateInbox, .putMembraneBringer,
    .putMembraneBlocker, .queryOwnStockpile].map plain ++
  (List.range nlev).map (leveled .queryChannelGen) ++
  [.sendBigFracResource, .sendSmallFracResource, .sendMsgExternal, .bcstMsgExternal].map plain ++
  (List.range (nlev + 1)).map (leveled .tryReproduce) ++
  (List.range nlev).map (leveled .incrCellAge) ++
  [.doApoptosisComplete, .doApoptosisPartial, .queryIsLive, .queryIsOccupied, .queryIsCellChild,
    .queryIsCellParent].map plain ++
  (List.range nlev).map (leveled .queryFacingChannelMate) ++
  [.queryIsPropaguleChild, .queryIsPropaguleParent].map plain ++
  (List.range nlev).map (leveled .queryFacingChannel) ++
  [plain .queryFacingStockpile]

/-- The built-in operations, followed by the environment instructions. -/
def library (nlev : Nat) : Library FrameOp :=
  Library.builtins.addAll ((catalogue nlev).map .ext)

end FrameOp

end Vivarium
