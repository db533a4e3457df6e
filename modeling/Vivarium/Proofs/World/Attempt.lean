import Vivarium.Proofs.Scalar.Linear
import Vivarium.Proofs.World.Birth
/-!
# Attempts to reproduce

An attempt goes through at the first unexpired level, or not at all: it fails when a level on the way is
paused or when the balance does not cover the threshold and the reserve, and then nothing has happened. If
it goes through, the threshold has gone from the balance into one sire at the back of a queue, and nothing
else has happened.
-/
namespace Vivarium

namespace World

variable {α : Type} [Scalar α] {config : Config α} {w v : World α} {pos : Nat}

/-- The second world is the first, after the tile at `pos` has paid for the sire and the sire has been put
behind those that wait at the target. -/
structure Begets (w v : World α) (pos target : Nat) (sire : Sire α FrameOp) : Prop where
  config : v.config = w.config
  grid : v.grid = w.grid
  triggerTags : v.triggerTags = w.triggerTags
  rng : v.rng = w.rng
  size : v.size = w.size
  tile : ∀ q, v.tile q = { w.tile q with
    stockpile := { (w.tile q).stockpile with
      resource :=
        if q = pos then (w.tile q).stockpile.resource - sire.endowment
        else (w.tile q).stockpile.resource }
    intake := if q = target then (w.tile q).intake ++ [sire] else (w.tile q).intake }

/-- To debit the endowment and to queue the sire is all that it takes, also where the target is the tile
of the parent. -/
theorem begets_receive (hp : pos < w.size) {target : Nat} (ht : target < w.size)
    {stockpile : Stockpile α} {sire : Sire α FrameOp}
    (hs : stockpile = { (w.tile pos).stockpile with
      resource := (w.tile pos).stockpile.resource - sire.endowment }) :
    w.Begets ((w.modifyStockpile pos fun _ => stockpile).receive target sire) pos target sire := by
  subst hs
  refine ⟨rfl, rfl, rfl, rfl, ?_, fun q => ?_⟩
  · rw [receive, modifyStockpile, size_modify, size_modify]
  · have hpaid : (w.modifyStockpile pos fun _ => { (w.tile pos).stockpile with
          resource := (w.tile pos).stockpile.resource - sire.endowment }).tile q =
        { w.tile q with stockpile := { (w.tile q).stockpile with
          resource :=
            if q = pos then (w.tile q).stockpile.resource - sire.endowment
            else (w.tile q).stockpile.resource } } := by
      by_cases hq : q = pos
      · rw [hq, if_pos rfl, modifyStockpile, tile_modify_same _ _ hp]
      · rw [if_neg hq, modifyStockpile, tile_modify_other _ _ hq]
    by_cases hq : q = target
    · rw [if_pos hq, receive, hq, tile_modify_same _ _ (by rwa [modifyStockpile, size_modify]), ← hq,
        hpaid]
    · rw [if_neg hq, receive, tile_modify_other _ _ hq, hpaid]

section

variable (w : World α) (pos : Nat) (facing : Direction) (relative : α) (start : Nat)
  (program : Program FrameOp)

theorem level_tryReproduce : (w.tryReproduce pos facing relative start program).1 =
    w.reproductionLevel? pos facing start := by
  unfold tryReproduce
  cases w.reproductionLevel? pos facing start with
  | none => rfl
  | some used => rfl

/-- Nothing happens if no level is open. -/
theorem tryReproduce_of_none (h : w.reproductionLevel? pos facing start = none) :
    w.tryReproduce pos facing relative start program = (none, w) := by
  rw [tryReproduce, h]

end

variable [Scalar.Linear α]

/-- Threshold and reserve together must be covered by the balance. -/
theorem Run.canAfford_iff (h : Run config w) (pos : Nat) (facing : Direction) :
    w.canAfford pos facing = true ↔
      config.repThresh + (w.controls pos facing).reserve.amount ≤ (w.tile pos).stockpile.resource := by
  have ht := h.metered pos
  have hthreshold := Scalar.Numeric.number_of_finite (Config.threshold_of_validate h.validate).1
  have hbar := Scalar.Numeric.number_add hthreshold (ht.finite facing)
  rw [canAfford, h.shaped.config_eq, Bool.not_eq_true', decide_eq_false_iff_not]
  exact Scalar.not_lt_iff ht.resource hbar

/-- The level that is used is the least one that is open, if the tile can afford it. -/
theorem Run.reproductionLevel?_eq_some_iff (h : Run config w) (pos : Nat) (facing : Direction)
    (start used : Nat) : w.reproductionLevel? pos facing start = some used ↔
      IsLeast {l | start ≤ l ∧ l ≤ config.nlev ∧ (w.tile pos).channel.isExpired l = false} used ∧
      (∀ l, start ≤ l → l ≤ used → (w.controls pos facing).isPaused l = false) ∧
      config.repThresh + (w.controls pos facing).reserve.amount ≤
        (w.tile pos).stockpile.resource := by
  have hrange : {l | start ≤ l ∧ l < start + (config.nlev + 1 - start) ∧
        (w.tile pos).channel.isExpired l = false} =
      {l | start ≤ l ∧ l ≤ config.nlev ∧ (w.tile pos).channel.isExpired l = false} := by
    ext l
    constructor
    · rintro ⟨hle, hlt, hopen⟩
      exact ⟨hle, by omega, hopen⟩
    · rintro ⟨hle, hmax, hopen⟩
      exact ⟨hle, by omega, hopen⟩
  rw [reproductionLevel?, Option.ite_none_right_eq_some, firstOpen_eq_some_iff, h.canAfford_iff,
    h.shaped.config_eq, hrange, and_comm, and_assoc]

/-- The sire carries all of the threshold. -/
theorem Run.begets_tryReproduce (h : Run config w) (hp : pos < w.size) {facing : Direction} {relative : α}
    {start used : Nat} {program : Program FrameOp}
    (hr : w.tryReproduce pos facing relative start program = (some used, v)) :
    w.Begets v pos (w.neighbor pos (facing.turn relative))
      ⟨w.record pos (facing.turn relative) used, program, config.repThresh⟩ := by
  obtain ⟨hlevel, rfl⟩ := of_tryReproduce_eq_some hr
  have hpay := h.available_eq (of_reproductionLevel? hlevel).1
  rw [sireOf, Stockpile.request, hpay]
  exact begets_receive hp (h.sound.neighbor_lt hp _) rfl

/-- An attempt to reproduce goes through at a level exactly when this is the least level from the start on
that is not expired, no level from the start to it is paused, and the balance covers the threshold and the
reserve. If it goes through, the threshold has gone from the balance into a sire with the parent's program and
lineage, which waits behind the others at the target, and nothing else has changed; if it does not, nothing
has changed. -/
theorem attempt_all_or_nothing (h : Run config w) (hp : pos < w.size) (facing : Direction) (relative : α)
    (start : Nat) (program : Program FrameOp) :
    let here := w.tile pos
    let controls := w.controls pos facing
    let attempt := w.tryReproduce pos facing relative start program
    (∀ used, attempt.1 = some used ↔
      IsLeast {l | start ≤ l ∧ l ≤ config.nlev ∧ here.channel.isExpired l = false} used ∧
      (∀ l, start ≤ l → l ≤ used → controls.isPaused l = false) ∧
      config.repThresh + controls.reserve.amount ≤ here.stockpile.resource) ∧
    (∀ used, attempt.1 = some used →
      w.Begets attempt.2 pos (w.neighbor pos (facing.turn relative))
        { record := {
            sourcePos := pos
            dir := facing.turn relative
            level := used
            generations := here.channel.generations
            ids := here.channel.ids.getD []
            ages := here.channel.ages
            prevChan :=
              if used < config.nlev then here.family.prevChan
              else here.channel.id? (config.nlev - 1) }
          program := program
          endowment := config.repThresh }) ∧
    (attempt.1 = none → attempt.2 = w) := by
  intro here controls attempt
  have hlevel : attempt.1 = w.reproductionLevel? pos facing start := level_tryReproduce ..
  refine ⟨fun used => ?_, fun used hused => ?_, fun hnone => ?_⟩
  · rw [hlevel]
    exact h.reproductionLevel?_eq_some_iff pos facing start used
  · have hbegets := h.begets_tryReproduce hp (Prod.ext hused rfl :
      w.tryReproduce pos facing relative start program = (some used, attempt.2))
    rw [record, propagule, h.shaped.config_eq] at hbegets
    exact hbegets
  · exact congrArg Prod.snd (w.tryReproduce_of_none _ _ relative _ program (hlevel.symm.trans hnone))

/-- A single tile, its own neighbour, with three levels of which the lowest expires first. -/
def islet : Config Rat :=
  { Config.withLevels 3 500 with
    gridWidth := 1, gridHeight := 1, levels := [⟨5⟩, ⟨50⟩, ⟨500⟩], repThresh := 4 }

def solitude : List (Deed Rat) := [.found 0 .zero, .grow 0 10, .age 0 6]

/-- The founder reproduces one level up, onto its own tile. An attempt above all levels comes to nothing. -/
theorem attempt_all_or_nothing_islet : ∃ w v, Run islet w ∧
    w.tryReproduce 0 .right 0 0 .none = (some 1, v) ∧
    IsLeast {l | 0 ≤ l ∧ l ≤ 3 ∧ (w.tile 0).channel.isExpired l = false} 1 ∧
    (w.tile 0).stockpile.resource = 10 ∧ (v.tile 0).stockpile.resource = 6 ∧
    (∃ sire, (v.tile 0).intake = [sire] ∧ sire.endowment = 4) ∧
    w.tryReproduce 0 .right 0 4 .none = (none, w) := by
  have hrun : leadsTo islet solitude (fun _ w => decide (0 < w.size ∧
      (w.tryReproduce 0 .right 0 0 .none).1 = some 1 ∧ (w.tryReproduce 0 .right 0 4 .none).1 = none ∧
      w.neighbor 0 (Direction.right.turn (0 : Rat)) = 0 ∧ (w.tile 0).intake = [] ∧
      (w.tile 0).stockpile.resource = 10)) = true := by decide +kernel
  obtain ⟨w₀, ids, w, h₀, hw, ht⟩ := exists_history hrun
  obtain ⟨hsize, hused, hnone, htarget, hempty, hten⟩ := of_decide_eq_true ht
  have h := Run.of_history h₀ hw
  obtain ⟨hlevel, hbegets, -⟩ := attempt_all_or_nothing h hsize .right 0 0 .none
  obtain ⟨-, -, hnothing⟩ := attempt_all_or_nothing h hsize .right 0 4 .none
  have htile := (hbegets 1 hused).tile 0
  have hsix : (10 : Rat) - islet.repThresh = 6 := by decide +kernel
  rw [htarget, if_pos rfl, if_pos rfl, hempty, hten] at htile
  refine ⟨w, _, h, Prod.ext hused rfl, ((hlevel 1).1 hused).1, hten, ?_,
    ⟨_, congrArg (·.intake) htile, rfl⟩, Prod.ext hnone (hnothing hnone)⟩
  exact (congrArg (·.stockpile.resource) htile).trans hsix

end World

end Vivarium
