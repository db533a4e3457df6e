import Vivarium.Proofs.Dish.History
import Vivarium.Proofs.World.Ledger
/-!
# Conservation of resource

Over the rationals the resource in stockpiles and intakes together changes by growth alone,
whatever is done to a world and in whatever order. In particular a step of a dish keeps it.
-/
namespace Vivarium

namespace World

variable {w w' : World Rat}

/-- A deed on the grid of a solvent world succeeds, and changes its worth by the growth it brings. -/
theorem Solvent.perform (hw : w.Solvent) {d : Deed Rat} (hd : d.pos < w.size) :
    ∃ w', d.perform w = .ok w' ∧ w'.worth = w.worth + d.growth.sum := by
  obtain ⟨w', hp⟩ := hw.sound.exists_perform hd
  refine ⟨w', hp, ?_⟩
  have hworth := (History.start.act d hp).worth hw
  rw [hworth.2, List.nil_append, List.flatMap_singleton]

/-- Deeds without growth leave the worth as it is. -/
theorem Becomes.worth (h : w.Becomes w') (hw : w.Solvent) : w'.worth = w.worth := by
  obtain ⟨deeds, ids, hh, hg⟩ := h
  rw [(hh.worth hw).2, hg, List.sum_nil, add_zero]

/-- Conservation of resource. Throughout every history of a new world, stockpiles and intakes
together hold what has grown so far; every deed on the grid succeeds and changes them by the growth
it brings. A step of a dish changes them not at all. -/
theorem resource_conserved {config : Config Rat} {w₀ : World Rat}
    (h₀ : World.new config = .ok w₀) :
    (∀ deeds ids w, History w₀ deeds ids w →
      w.totalResource + w.pendingEndowment = (deeds.flatMap (·.growth)).sum ∧
      ∀ d : Deed Rat, d.pos < w.size → ∃ w', d.perform w = .ok w' ∧
        w'.totalResource + w'.pendingEndowment =
          w.totalResource + w.pendingEndowment + d.growth.sum) ∧
    ∀ d : Dish Rat, d.Reachable config → ∀ summary d', d.step = .ok (summary, d') →
      summary.resource + summary.pending = d.world.totalResource + d.world.pendingEndowment := by
  have hnew := solvent_new h₀
  constructor
  · intro deeds ids w hw
    obtain ⟨hs, hworth⟩ := hw.worth hnew
    rw [worth_new h₀, zero_add] at hworth
    exact ⟨hworth, fun d hd => hs.perform hd⟩
  · intro d hd summary d' hstep
    obtain ⟨hl, v₀, deeds, ids, hv, hw⟩ := hd.history
    obtain ⟨hb, -, hres, hpend⟩ := Dish.of_step_eq_ok hl hstep
    rw [hres, hpend]
    exact hb.worth (hw.worth (solvent_new hv)).1

/-- Two tiles side by side, where reproduction costs four units. -/
def pond : Config Rat :=
  { Config.withLevels 2 100 with gridWidth := 2, gridHeight := 1, repThresh := 4 }

/-- A founder is given ten units. One of its sires settles, the other is turned away. -/
def exchange : List (Deed Rat) :=
  [.found 0 .zero, .grow 0 10, .reproduce 0 .right 0 0 .none, .reproduce 0 .right 0 0 .none,
    .settle 1 .zero]

def spawner : Program FrameOp := ⟨[⟨.new 0, [.bare (.ext (.leveled .tryReproduce 0))]⟩]⟩

/-- In a dish where the same founder runs the program, two sires travel after one step. -/
def spawns : Bool :=
  match Dish.new pond with
  | .ok d =>
    match d.seed 0 spawner 10 with
    | .ok d =>
      match d.step with
      | .ok (summary, _) => decide (summary.resource = 2 ∧ summary.pending = 8)
      | .error _ => false
    | .error _ => false
  | .error _ => false

/-- The ten units are there after the exchange, and the step of the dish keeps them. -/
theorem resource_conserved_pond : ∃ w₀ ids w d summary d', World.new pond = .ok w₀ ∧
    History w₀ exchange ids w ∧ w.totalResource + w.pendingEndowment = 10 ∧
    Dish.Reachable pond d ∧ d.step = .ok (summary, d') ∧ summary.pending = 8 ∧
    summary.resource + summary.pending = d.world.totalResource + d.world.pendingEndowment := by
  have hrun : leadsTo pond exchange (fun _ _ => true) = true := by decide +kernel
  obtain ⟨w₀, ids, w, h₀, hw, -⟩ := exists_history hrun
  obtain ⟨hworld, hdish⟩ := resource_conserved h₀
  have hten : ((exchange.flatMap (·.growth)).sum : Rat) = 10 := by decide +kernel
  have hspawns : spawns = true := by decide +kernel
  unfold spawns at hspawns
  split at hspawns
  · next d hd =>
    split at hspawns
    · next d' hs =>
      split at hspawns
      · next summary d'' hstep =>
        have hreach : Dish.Reachable pond d' := .seed (.new hd) hs
        refine ⟨w₀, ids, w, d', summary, d'', h₀, hw, ?_, hreach, hstep,
          (of_decide_eq_true hspawns).2, hdish d' hreach summary d'' hstep⟩
        rw [(hworld exchange ids w hw).1, hten]
      · cases hspawns
    · cases hspawns
  · cases hspawns

end World

end Vivarium
