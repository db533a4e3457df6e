import Vivarium.Proofs.World.Edges
import Vivarium.Proofs.World.Range
/-!
# What the environment tells a frame

In a qualifying tick a frame goes through all triggers once. Which of them fire, and for which side, can be
read off the tile of the frame and the tile ahead of it as they are before the pass. The pass itself lifts
the pauses of the frame, ages its reserve and forgets the harvests of its tile; nothing else in the world
changes.
-/
namespace Vivarium

/-! ## Conditions -/

namespace Sensor

section

variable {α : Type} [Scalar α]

def front (s : Sensor α) : Nat := s.world.neighbor s.pos s.facing

def ahead (s : Sensor α) : Tile α := s.world.tile s.front

/-- The condition that a trigger stands for; `chance` is that of the stochastic trigger. -/
def Holds (s : Sensor α) (tick : Tick) (chance : Prop) : Trigger → Prop
  | .cellChild =>
    s.ahead.live = true ∧ s.here.family.parent = some s.front ∧ s.ahead.family.hasChild s.pos = true
  | .cellParent =>
    s.ahead.live = true ∧ s.here.family.hasChild s.front = true ∧ s.ahead.family.parent = some s.pos
  | .negativeResource => s.here.stockpile.resource < 0
  | .expiration => s.world.config.expGracePeriod < s.here.channel.expiration 0
  | .harvestWithdrawal => true ∈ s.here.stockpile.harvested
  | .channelMate level =>
    ∃ id, s.here.channel.id? level = some id ∧ s.ahead.channel.id? level = some id
  | .propaguleChild =>
    s.ahead.live = true ∧ ∃ id, s.here.family.prevChan = some id ∧
      s.ahead.channel.id? (s.world.config.nlev - 1) = some id
  | .propaguleParent =>
    s.ahead.live = true ∧ ∃ id, s.ahead.family.prevChan = some id ∧
      s.here.channel.id? (s.world.config.nlev - 1) = some id
  | .neighborLive => s.ahead.live = true
  | .neighborPoorer => s.ahead.stockpile.resource < s.here.stockpile.resource
  | .neighborOlder => s.ahead.family.birth.count ≤ s.here.family.birth.count
  | .neighborExpired level => 0 < s.ahead.channel.expiration level
  | .update => True
  | .justBorn => s.here.family.age tick = 0
  | .stochastic => chance

end

end Sensor

/-! ## Evaluation -/

namespace Outcome

variable {b : Bool} {o : Outcome}

end Outcome

namespace Sensor

section

variable {s : Sensor Float} {tick : Tick} {chance : Bool}

end

variable {α : Type} [Scalar α] {s : Sensor α} {tick : Tick} {chance : Bool}

/-! ## The walk -/

end Sensor

/-! ## The world after the pass -/

section

variable {α : Type}

theorem PerFacing.modify_congr {β : Type} {q : PerFacing β} {d : Direction} {f g : β → β}
    (h : f (q.get d) = g (q.get d)) : q.modify d f = q.modify d g := by
  match d, h with
  | 0, h | 1, h | 2, h | 3, h =>
    simp only [get] at h
    simp only [modify, h]

/-- The levels are reset from the lowest up. -/
theorem Stockpile.resetHarvests_of_le (s : Stockpile α) {n : Nat} (h : n ≤ s.harvested.length) :
    s.resetHarvests n =
      { s with harvested := List.replicate n false ++ s.harvested.drop n } := by
  induction n with
  | zero => rfl
  | succ n ih =>
    have hlength : n < (List.replicate n false ++ s.harvested.drop n).length := by
      simp only [List.length_append, List.length_replicate, List.length_drop]
      omega
    have hstep : s.resetHarvests (n + 1) = (s.resetHarvests n).resetHarvest n := by
      rw [resetHarvests, List.range_succ, List.foldl_append]
      rfl
    have hmodify : (List.replicate n false ++ s.harvested.drop n).modify n (fun _ => false) =
        List.replicate (n + 1) false ++ s.harvested.drop (n + 1) := by
      rw [List.modify_eq_take_cons_drop hlength, List.replicate_succ']
      simp [List.drop_append, List.drop_eq_nil_of_le]
    rw [hstep, ih (Nat.le_of_succ_le h), resetHarvest, hmodify]

variable [Scalar α]

/-- A pass in a tick in which triggers are looked into. -/
theorem Frame.advanceEnvironment_of_qualifies (f : Frame α) {w : World α} {tick : Tick}
    (h : tick.qualifies w.config.envTrigFreq = true) :
    f.advanceEnvironment w tick =
      let tags := (f.sensor w).fired tick (f.drawChance w.config).1
      (tags, ((f.drawChance w.config).2.excite tags).fade,
        f.relent (w.modifyStockpile f.pos (·.resetHarvests w.config.nlev))) := by
  rw [advanceEnvironment, if_pos h]
  rfl

namespace World

variable {config : Config α} {w : World α}

end World

end

namespace World

variable {config : Config Float} {w : World Float}

end World

end Vivarium
