import Vivarium.Proofs.Frame.Triggers
import Vivarium.Proofs.Machine.Schedule
/-!
# How many tags fire in one pass

Nine triggers do not depend on lineage, and `4 + 2 * nlev` do, which are silent while channels are hidden.
A constant headroom therefore suffices for hidden channels only. What suffices for every configuration is
the number of triggers.
-/
namespace Vivarium

namespace Trigger

def ofLineage : Trigger → Bool
  | cellChild | cellParent | channelMate _ | propaguleChild | propaguleParent | neighborExpired _ => true
  | _ => false

/-- Triggers that fire in every pass, for one side or the other. -/
def constant (visible : Bool) : Trigger → Bool
  | channelMate _ => visible
  | neighborLive | update => true
  | _ => false

/-- Only two families of triggers grow with the number of levels. -/
theorem countP_all (p : Trigger → Bool) (nlev : Nat) :
    (all nlev).countP p = (all 0).countP p + (List.range nlev).countP (p ∘ channelMate) +
      (List.range nlev).countP (p ∘ neighborExpired) := by
  simp only [all, List.countP_append, List.countP_map, List.range_zero, List.map_nil, List.countP_nil]
  omega

theorem countP_unhidden (visible : Bool) (nlev : Nat) :
    (all nlev).countP (fun t => visible || !t.ofLineage) =
      9 + if visible then 4 + 2 * nlev else 0 := by
  have hfixed : (all 0).countP (fun t => visible || !t.ofLineage) = 9 + if visible then 4 else 0 := by
    cases visible <;> rfl
  have hfamily (family : Nat → Trigger) (h : ∀ level, (family level).ofLineage = true) :
      (List.range nlev).countP ((fun t => visible || !t.ofLineage) ∘ family) =
        if visible then nlev else 0 := by
    cases visible <;> simp [Function.comp_def, h]
  rw [countP_all, hfixed, hfamily channelMate fun _ => rfl, hfamily neighborExpired fun _ => rfl]
  cases visible <;> simp +arith

theorem countP_constant (visible : Bool) (nlev : Nat) :
    (all nlev).countP (constant visible) = 2 + if visible then nlev else 0 := by
  have hfixed : (all 0).countP (constant visible) = 2 := by
    cases visible <;> rfl
  have hmate : constant visible ∘ channelMate = fun _ => visible := rfl
  have hexpired : constant visible ∘ neighborExpired = fun _ => false := rfl
  rw [countP_all, hfixed, hmate, hexpired]
  cases visible <;> simp

end Trigger

variable {α : Type} [Scalar α]

namespace Sensor

variable {s : Sensor α} {tick : Tick} {chance : Bool}

/-- Where channels are not visible no trigger of lineage fires. -/
theorem unhidden_of_fires {t : Trigger} (h : (s.fires tick chance t).isSome = true) :
    (s.world.config.channelsVisible || !t.ofLineage) = true := by
  cases hvisible : s.world.config.channelsVisible with
  | true => rfl
  | false => cases t <;> simp_all [fires, outcome, Outcome.only, Trigger.ofLineage]

/-- A pass fires at most one tag for every trigger that is not hidden. -/
theorem length_fired_le (s : Sensor α) (tick : Tick) (chance : Bool) :
    (s.fired tick chance).length ≤
      9 + if s.world.config.channelsVisible then 4 + 2 * s.world.config.nlev else 0 := by
  rw [fired, List.length_filterMap_eq_countP, ← Trigger.countP_unhidden]
  exact List.countP_mono_left fun t _ => unhidden_of_fires

theorem fires_of_constant {seed : UInt64} (h : s.world.triggerTags = .new seed s.world.config.nlev)
    {t : Trigger} (ht : t ∈ Trigger.all s.world.config.nlev)
    (hconstant : t.constant s.world.config.channelsVisible = true) :
    (s.fires tick chance t).isSome = true := by
  obtain ⟨pro, anti, hpro, hanti⟩ := @TriggerTags.exists_both seed _ t ht
  have hloud : s.outcome tick chance t ≠ .silent := by
    cases t with
    | channelMate level =>
      rw [Trigger.constant] at hconstant
      simp only [outcome, hconstant, Outcome.only, if_true, Outcome.twoSided]
      split <;> simp
    | neighborLive =>
      simp only [outcome, Outcome.twoSided]
      split <;> simp
    | update => simp [outcome]
    | _ => cases hconstant
  rw [fires, h]
  cases houtcome : s.outcome tick chance t with
  | pro => simp [hpro]
  | anti => simp [hanti]
  | silent => exact absurd houtcome hloud

/-- A pass fires at least the triggers that fire in every pass. -/
theorem le_length_fired {seed : UInt64} (h : s.world.triggerTags = .new seed s.world.config.nlev)
    (tick : Tick) (chance : Bool) :
    (2 + if s.world.config.channelsVisible then s.world.config.nlev else 0) ≤
      (s.fired tick chance).length := by
  rw [fired, List.length_filterMap_eq_countP, ← Trigger.countP_constant]
  exact List.countP_mono_left fun t ht => fires_of_constant h ht

end Sensor

namespace Frame

/-- A frame with no live threads ends up with one thread for every fired tag that resolves, as long as
there is a core. -/
theorem length_threads_pass {f : Frame α} {w : World α} {tick : Tick} (hpending : f.cpu.board.pending = [])
    (hidle : f.cpu.threads = []) (htick : tick.qualifies w.config.envTrigFreq = true) :
    (f.advanceEnvironment w tick).2.1.cpu.threads.length =
      min f.cpu.limits.maxThreads
        ((f.advanceEnvironment w tick).1.countP fun tag => (f.cpu.board.resolve? tag).isSome) := by
  have hstart (tag : Tag) : ((f.drawChance w.config).2.cpu.start? ⟨tag, .empty⟩).isSome =
      (f.cpu.board.resolve? tag).isSome := Option.isSome_map
  rw [advanceEnvironment_of_qualifies f htick]
  simp only [fade, Machine.setMatcher, excite]
  rw [Machine.handle_eq (by exact hpending)]
  have hthreads : (f.drawChance w.config).2.cpu.threads = [] := hidle
  rw [hthreads, List.nil_append, List.length_take, List.length_nil, Nat.sub_zero, List.filterMap_map,
    List.length_filterMap_eq_countP]
  simp only [Function.comp_apply, hstart]
  rfl

end Frame

namespace World

/-- What a pass fires into a frame with no live threads. Update and the liveness of the neighbour always
fire, and with visible channels so does the match at each level; at most all triggers fire, or the nine that
do not tell of lineage. The tags that resolve take one core each while there are cores. So the constant
headroom covers a pass with hidden channels, and the number of triggers covers every pass; with visible
channels and more than ten levels no pass stays within the constant. -/
theorem pass_fits_cores {config : Config α} {w : World α} (h : Run config w) {f : Frame α}
    (hlimits : f.cpu.limits = config.limits) (hdriven : f.cpu.Driven) (hidle : f.cpu.threads = [])
    {tick : Tick} (htick : tick.qualifies config.envTrigFreq = true) :
    let pass := f.advanceEnvironment w tick
    let fired := pass.1.length
    let threads := pass.2.1.cpu.threads.length
    (2 + if config.channelsVisible then config.nlev else 0) ≤ fired ∧
    fired ≤ (9 + if config.channelsVisible then 4 + 2 * config.nlev else 0) ∧
    threads = min config.hwMaxCores
      (pass.1.countP fun tag => (f.cpu.board.resolve? tag).isSome) ∧
    (config.channelsVisible = false → fired ≤ triggerHeadroom ∧ threads < config.hwMaxCores) ∧
    (Trigger.count config.nlev < config.hwMaxCores → threads < config.hwMaxCores) ∧
    (config.channelsVisible = true → 10 < config.nlev → triggerHeadroom < fired) := by
  obtain rfl : w.config = config := h.shaped.config_eq
  intro pass fired threads
  have hcores : triggerHeadroom < w.config.hwMaxCores := (Config.validate_eq_ok_iff.1 h.validate).cores
  have hthreads : threads = min w.config.hwMaxCores
      (pass.1.countP fun tag => (f.cpu.board.resolve? tag).isSome) := by
    have hlength := Frame.length_threads_pass hdriven.rested.pending hidle htick
    rwa [hlimits] at hlength
  have hresolved : (pass.1.countP fun tag => (f.cpu.board.resolve? tag).isSome) ≤ fired :=
    List.countP_le_length
  have hpass : pass = _ := f.advanceEnvironment_of_qualifies htick
  have hlower : (2 + if w.config.channelsVisible then w.config.nlev else 0) ≤ fired := by
    simp only [fired, hpass]
    exact (f.sensor w).le_length_fired h.shaped.triggerTags_eq tick _
  have hupper : fired ≤ (9 + if w.config.channelsVisible then 4 + 2 * w.config.nlev else 0) := by
    simp only [fired, hpass]
    exact (f.sensor w).length_fired_le tick _
  refine ⟨hlower, hupper, hthreads, ?_, ?_, ?_⟩
  · intro hhidden
    rw [hhidden, if_neg Bool.false_ne_true] at hupper
    rw [triggerHeadroom] at hcores ⊢
    omega
  · intro hroom
    have hcount : fired ≤ Trigger.count w.config.nlev := by
      refine Nat.le_trans hupper ?_
      rw [Trigger.count]
      split <;> omega
    omega
  · intro hvisible hlevels
    rw [hvisible, if_pos rfl] at hlower
    rw [triggerHeadroom]
    omega

/-- A single tile, which is its own neighbour on all sides, and a stochastic trigger that always fires. -/
def hermitage (cores : Nat) : Config Float :=
  { Config.standard with gridWidth := 1, gridHeight := 1, hwMaxCores := cores, stochasticTriggerFreq := 1 }

/-- A founder in debt, with both channels past their time. -/
def decline : List (Deed Float) := [.found 0 .zero, .grow 0 (-1), .ageAt 0 0 300, .ageAt 0 1 2000]

/-- A frame of the single tile whose one function matches every tag. -/
def recluse (cores : Nat) : Frame Float :=
  (Frame.build 0 .up (hermitage cores) (.ofSeed 7)).setProgram
    ⟨[⟨.new 0, [.bare (.builtin .nop)]⟩]⟩

theorem driven_recluse (cores : Nat) : (recluse cores).cpu.Driven := .load _ (.new _ _)

/-- Thirteen cores are enough for a configuration to be valid, but all of them may be taken at once. -/
theorem headroom_exceeded : ∃ w, Run (hermitage 13) w ∧ (hermitage 13).validate = .ok () ∧
    (recluse 13).pos < w.size ∧ (recluse 13).cpu.limits = (hermitage 13).limits ∧
    (recluse 13).cpu.Driven ∧ (recluse 13).cpu.threads = [] ∧
    Tick.zero.qualifies (hermitage 13).envTrigFreq = true ∧
    ((recluse 13).advanceEnvironment w .zero).1.length = triggerHeadroom + 1 ∧
    ((recluse 13).advanceEnvironment w .zero).2.1.cpu.threads.length = (hermitage 13).hwMaxCores := by
  have hrun : leadsTo (hermitage 13) decline (fun _ v =>
      let pass := (recluse 13).advanceEnvironment (v.modify 0 (Tile.Edit.harvest 0 0).apply) .zero
      decide (0 < v.size ∧ pass.1.length = triggerHeadroom + 1 ∧
        pass.2.1.cpu.threads.length = (hermitage 13).hwMaxCores)) = true := by
    decide +kernel
  obtain ⟨w₀, ids, v, h₀, hv, ht⟩ := exists_history hrun
  obtain ⟨hsize, hfired, hthreads⟩ := of_decide_eq_true ht
  have hedited := (Run.of_history h₀ hv).edit (.harvest 0 0) hsize fun _ => nofun
  exact ⟨_, hedited, hedited.validate, by rwa [size_modify], rfl, driven_recluse 13, rfl, rfl, hfired,
    hthreads⟩

/-- The cell is made its own parent, child and propagule, so that every trigger fires. Eighteen cores are one
more than there are triggers. -/
theorem pass_fits_cores_recluse : ∃ w, Run (hermitage 18) w ∧ Trigger.count (hermitage 18).nlev = 17 ∧
    ((recluse 18).advanceEnvironment w .zero).1.length = 17 ∧
    ((recluse 18).advanceEnvironment w .zero).2.1.cpu.threads.length < (hermitage 18).hwMaxCores := by
  have hrun : leadsTo (hermitage 18) decline (fun _ v =>
      let settled := v.modify 0 (Tile.Edit.settleFamily (some 0) .zero ((v.tile 0).channel.id? 1)).apply
      let w := (settled.modify 0 (Tile.Edit.addChild 0).apply).modify 0 (Tile.Edit.harvest 0 0).apply
      decide (0 < v.size ∧ ((recluse 18).advanceEnvironment w .zero).1.length = 17)) = true := by
    decide +kernel
  obtain ⟨w₀, ids, v, h₀, hv, ht⟩ := exists_history hrun
  obtain ⟨hsize, hfired⟩ := of_decide_eq_true ht
  have hsettled := (Run.of_history h₀ hv).edit
    (.settleFamily (some 0) .zero ((v.tile 0).channel.id? 1)) hsize fun _ => nofun
  have hadopted := hsettled.edit (.addChild 0) (by rwa [size_modify]) fun _ => nofun
  have hharvested := hadopted.edit (.harvest 0 0) (by rwa [size_modify, size_modify]) fun _ => nofun
  have htick : Tick.zero.qualifies (hermitage 18).envTrigFreq = true := rfl
  have hfits := pass_fits_cores hharvested (f := recluse 18) rfl (driven_recluse 18) rfl htick
  exact ⟨_, hharvested, rfl, hfired, hfits.2.2.2.2.1 (by decide)⟩

end World

end Vivarium
