import Vivarium.Proofs.Frame.Triggers
import Vivarium.Proofs.Machine.Run
/-!
# Passes of two frames

What one pass writes to the world hardly any other pass reads. The reserve and the pauses of a frame show
in no trigger, and the harvests of a tile show only in its own. Passes of two frames therefore lead to the
same world in either order and fire the same tags, except that of the frames of one cell only the first to
pass learns of a harvest.
-/
namespace Vivarium

variable {α : Type} [Scalar α]

namespace Frame

/-! ## The three parts of a pass -/

def firing (f : Frame α) (w : World α) (tick : Tick) : List Tag :=
  (f.sensor w).fired tick (f.drawChance w.config).1

def answering (f : Frame α) (config : Config α) (tags : List Tag) : Frame α :=
  ((f.drawChance config).2.excite tags).fade

/-- What a pass does to the tile of the frame. -/
def soothing (f : Frame α) (nlev : Nat) (t : Tile α) : Tile α :=
  { t with
    stockpile := t.stockpile.resetHarvests nlev
    controls := t.controls.modify f.facing fun c => { c with reserve := c.reserve.tryClear }.resumeAll }

def soothe (f : Frame α) (w : World α) : World α := w.modify f.pos (f.soothing w.config.nlev)

/-- A pass in its three parts: what fires, what becomes of the frame, and what becomes of its tile. -/
theorem advanceEnvironment_eq (f : Frame α) {w : World α} {tick : Tick}
    (h : tick.qualifies w.config.envTrigFreq = true) :
    f.advanceEnvironment w tick =
      (f.firing w tick, f.answering w.config (f.firing w tick), f.soothe w) := by
  have hsoothe : f.relent (w.modifyStockpile f.pos (·.resetHarvests w.config.nlev)) = f.soothe w :=
    World.modify_modify w f.pos _ _
  rw [advanceEnvironment_of_qualifies f h, hsoothe]
  rfl

end Frame

/-! ## Writes -/

theorem PerFacing.modify_comm {β : Type} (q : PerFacing β) (d e : Direction) {f g : β → β}
    (h : ∀ x, g (f x) = f (g x)) : (q.modify d f).modify e g = (q.modify e g).modify d f := by
  match d, e with
  | 0, 0 | 1, 1 | 2, 2 | 3, 3 => simp only [modify, h]
  | 0, 1 | 0, 2 | 0, 3 | 1, 0 | 1, 2 | 1, 3 | 2, 0 | 2, 1 | 2, 3 | 3, 0 | 3, 1 | 3, 2 => rfl

namespace Frame

/-- Two frames may soothe a tile in either order. -/
theorem soothing_comm (f g : Frame α) (nlev : Nat) :
    g.soothing nlev ∘ f.soothing nlev = f.soothing nlev ∘ g.soothing nlev := by
  funext t
  simp only [Function.comp_apply, soothing, t.controls.modify_comm f.facing g.facing fun _ => rfl]

/-- The world is the same in whichever order two frames pass, whatever world they pass in. -/
theorem soothe_comm (f g : Frame α) (w : World α) : g.soothe (f.soothe w) = f.soothe (g.soothe w) :=
  w.modify_comm (.inr (soothing_comm f g w.config.nlev))

end Frame

/-! ## Reads -/

/-- The worlds agree on everything that triggers look at, except for harvests. -/
structure World.LooksLike (v w : World α) : Prop where
  config : v.config = w.config
  grid : v.grid = w.grid
  triggerTags : v.triggerTags = w.triggerTags
  live : ∀ q, (v.tile q).live = (w.tile q).live
  channel : ∀ q, (v.tile q).channel = (w.tile q).channel
  family : ∀ q, (v.tile q).family = (w.tile q).family
  resource : ∀ q, (v.tile q).stockpile.resource = (w.tile q).stockpile.resource

theorem Frame.looksLike_soothe (f : Frame α) (w : World α) : (f.soothe w).LooksLike w where
  config := rfl
  grid := rfl
  triggerTags := rfl
  live q := World.tile_modify_congr (·.live) w f.pos q fun _ => rfl
  channel q := World.tile_modify_congr (·.channel) w f.pos q fun _ => rfl
  family q := World.tile_modify_congr (·.family) w f.pos q fun _ => rfl
  resource q := World.tile_modify_congr (·.stockpile.resource) w f.pos q fun t =>
    t.stockpile.resource_resetHarvests _

/-- The trigger of harvests comes once in the walk. -/
theorem Trigger.all_cut (nlev : Nat) : ∃ before after,
    all nlev = before ++ harvestWithdrawal :: after ∧ harvestWithdrawal ∉ before ∧
      harvestWithdrawal ∉ after :=
  ⟨[cellChild, cellParent, negativeResource, expiration],
    (List.range nlev).map channelMate ++
      [propaguleChild, propaguleParent, neighborLive, neighborPoorer, neighborOlder] ++
      (List.range nlev).map neighborExpired ++ [update, justBorn, stochastic],
    by simp [all], by simp, by simp⟩

/-- The second list is the first without one tag, that of a harvest. -/
def TriggerTags.LacksHarvest (tags : TriggerTags) (fired later : List Tag) : Prop :=
  ∃ before tag after, tags.pro? .harvestWithdrawal = some tag ∧ fired = before ++ tag :: after ∧
    later = before ++ after

namespace World.LooksLike

variable {v w : World α} {tick : Tick} {chance : Bool} {t : Trigger}

/-- No other trigger tells the worlds apart. -/
theorem outcome_eq (h : v.LooksLike w) (pos : Nat) (facing : Direction) (ht : t ≠ .harvestWithdrawal) :
    (⟨v, pos, facing⟩ : Sensor α).outcome tick chance t =
      (⟨w, pos, facing⟩ : Sensor α).outcome tick chance t := by
  cases t <;>
    simp only [Sensor.outcome, Sensor.isLive, Sensor.isCellChild, Sensor.isCellParent,
      Sensor.isChannelMate, Sensor.isPropaguleChild, Sensor.isPropaguleParent, Sensor.topChannel,
      Sensor.neighborIsPoorer, Sensor.neighborIsOlder, Sensor.neighborExpiration, Sensor.here,
      Sensor.there, Sensor.neighbor, Sensor.direction, World.neighbor, h.config, h.grid, h.live,
      h.channel, h.family, h.resource]
  case harvestWithdrawal => exact absurd rfl ht
  -- What is left are the instances that decide the comparisons.
  all_goals congr

theorem fires_eq (h : v.LooksLike w) (pos : Nat) (facing : Direction) (ht : t ≠ .harvestWithdrawal) :
    (⟨v, pos, facing⟩ : Sensor α).fires tick chance t =
      (⟨w, pos, facing⟩ : Sensor α).fires tick chance t := by
  rw [Sensor.fires, Sensor.fires, h.outcome_eq pos facing ht, h.triggerTags]

/-- The triggers fire alike unless the tile has been harvested in one world only. -/
theorem fired_eq (h : v.LooksLike w) (pos : Nat) (facing : Direction)
    (hharvested : (v.tile pos).stockpile.anyHarvested = (w.tile pos).stockpile.anyHarvested) :
    (⟨v, pos, facing⟩ : Sensor α).fired tick chance = (⟨w, pos, facing⟩ : Sensor α).fired tick chance := by
  rw [Sensor.fired, Sensor.fired, h.config]
  apply List.filterMap_congr
  intro t _
  by_cases ht : t = .harvestWithdrawal
  · rw [ht, Sensor.fires, Sensor.fires, h.triggerTags]
    simp only [Sensor.outcome, Sensor.here, hharvested]
  · exact h.fires_eq pos facing ht

/-- Where one world remembers a harvest and the other does not, the tag of the harvest is all that is
missing. -/
theorem fired_lacks (h : v.LooksLike w) (pos : Nat) (facing : Direction) {seed : UInt64}
    (htags : w.triggerTags = .new seed w.config.nlev)
    (hw : (w.tile pos).stockpile.anyHarvested = true)
    (hv : (v.tile pos).stockpile.anyHarvested = false) :
    w.triggerTags.LacksHarvest ((⟨w, pos, facing⟩ : Sensor α).fired tick chance)
      ((⟨v, pos, facing⟩ : Sensor α).fired tick chance) := by
  obtain ⟨before, after, hall, hbefore, hafter⟩ := Trigger.all_cut w.config.nlev
  obtain ⟨tag, htag⟩ := @TriggerTags.exists_pro? seed w.config.nlev .harvestWithdrawal
    (Trigger.mem_all_iff.2 trivial)
  rw [← htags] at htag
  have hfires : (⟨w, pos, facing⟩ : Sensor α).fires tick chance .harvestWithdrawal = some tag := by
    simp only [Sensor.fires, Sensor.outcome, Sensor.here, hw]
    exact htag
  have hsilent : (⟨v, pos, facing⟩ : Sensor α).fires tick chance .harvestWithdrawal = none := by
    simp only [Sensor.fires, Sensor.outcome, Sensor.here, hv]
    rfl
  have hsame {part : List Trigger} (hpart : .harvestWithdrawal ∉ part) :
      part.filterMap ((⟨v, pos, facing⟩ : Sensor α).fires tick chance) =
        part.filterMap ((⟨w, pos, facing⟩ : Sensor α).fires tick chance) :=
    List.filterMap_congr fun t ht => h.fires_eq pos facing fun he => hpart (he ▸ ht)
  refine ⟨before.filterMap ((⟨w, pos, facing⟩ : Sensor α).fires tick chance), tag,
    after.filterMap ((⟨w, pos, facing⟩ : Sensor α).fires tick chance), htag, ?_, ?_⟩
  · rw [Sensor.fired, hall, List.filterMap_append, List.filterMap_cons_some hfires]
  · rw [Sensor.fired, h.config, hall, List.filterMap_append, List.filterMap_cons_none hsilent,
      hsame hbefore, hsame hafter]

end World.LooksLike

/-! ## Threads -/

namespace Machine

variable {X : Type}

/-- An event that nothing resolves can be left out. -/
theorem handle_unresolved (m : Machine α X) (before after : List (Event α)) {e : Event α}
    (h : m.board.resolve? e.affinity = none) :
    m.handle (before ++ e :: after) = m.handle (before ++ after) := by
  have hskip : (m.handle before).trigger e.affinity e.payload = m.handle before := by
    rw [trigger, trigger?, board_handle, h]
    rfl
  rw [handle_append, handle_append]
  exact congrArg (Machine.handle · after) hskip

end Machine

namespace Frame

/-- What becomes of a frame that passes too late to learn of a harvest. The tag of the harvest is missing
from those fired, and the frame answers the others. Only its threads may differ, and only if the program
heeds the tag. -/
structure MissesHarvest (f : Frame α) (w : World α) (alone later : List Tag × Frame α × World α) :
    Prop where
  fired : w.triggerTags.LacksHarvest alone.1 later.1
  alone_eq : alone.2.1 = f.answering w.config alone.1
  later_eq : later.2.1 = f.answering w.config later.1
  rest : later.2.1 = { alone.2.1 with cpu := { alone.2.1.cpu with threads := later.2.1.cpu.threads } }
  unheeded : ∀ tag, w.triggerTags.pro? .harvestWithdrawal = some tag →
    f.cpu.board.resolve? tag = none → later.2.1 = alone.2.1

theorem answering_eq_withThreads (f : Frame α) (config : Config α) (tags more : List Tag) :
    f.answering config more = { f.answering config tags with
      cpu := { (f.answering config tags).cpu with threads := (f.answering config more).cpu.threads } } := by
  simp only [answering, fade, excite, Machine.setMatcher]
  rw [Machine.handle_eq_withThreads _ (tags.map _), Machine.handle_eq_withThreads _ (more.map _)]

/-- A tag that nothing answers to may be left out. -/
theorem answering_unresolved (f : Frame α) (config : Config α) (before after : List Tag) {tag : Tag}
    (h : f.cpu.board.resolve? tag = none) :
    f.answering config (before ++ tag :: after) = f.answering config (before ++ after) := by
  have hskip := Machine.handle_unresolved (f.drawChance config).2.cpu
    (before.map fun tag => ⟨tag, .empty⟩) (after.map fun tag => ⟨tag, .empty⟩)
    (e := ⟨tag, .empty⟩) h
  rw [answering, answering, excite, excite, List.map_append, List.map_append, List.map_cons, hskip]

/-! ## Order of passes -/

variable {config : Config α} {w : World α} {tick : Tick}

/-- A harvest of its own tile is all that a frame can lose to a frame that passes before it. -/
theorem firing_soothe (h : w.Shaped config) {f g : Frame α} (hg : g.pos < w.size) (tick : Tick) :
    (f.pos ≠ g.pos ∨ true ∉ (w.tile f.pos).stockpile.harvested →
      f.firing (g.soothe w) tick = f.firing w tick) ∧
    (f.pos = g.pos → true ∈ (w.tile f.pos).stockpile.harvested →
      w.triggerTags.LacksHarvest (f.firing w tick) (f.firing (g.soothe w) tick)) := by
  have hlook := g.looksLike_soothe w
  have hflags (t : Tile α) : t.stockpile.anyHarvested = decide (true ∈ t.stockpile.harvested) := by
    rw [Stockpile.anyHarvested, List.any_eq]
    simp
  have hforgotten : ((g.soothe w).tile g.pos).stockpile.anyHarvested = false := by
    have hlength := (h.tiles g.pos).harvested
    rw [soothe, World.tile_modify_same _ _ hg, hflags, soothing, h.config_eq,
      Stockpile.resetHarvests_of_le _ (Nat.le_of_eq hlength.symm),
      List.drop_of_length_le (Nat.le_of_eq hlength)]
    simp
  constructor
  · intro hsame
    refine hlook.fired_eq f.pos f.facing ?_
    by_cases hpos : f.pos = g.pos
    · have hnone := hsame.resolve_left fun hne => hne hpos
      rw [hflags (w.tile f.pos), decide_eq_false hnone, hpos, hforgotten]
    · rw [soothe, World.tile_modify_other _ _ hpos]
  · intro hpos hflag
    have htags : w.triggerTags = .new config.seed w.config.nlev := h.config_eq ▸ h.triggerTags_eq
    refine hlook.fired_lacks f.pos f.facing htags ?_ ?_
    · rw [hflags, decide_eq_true hflag]
    · rw [hpos, hforgotten]

/-- A pass after that of another frame, beside the pass that it would have been otherwise. -/
theorem advanceEnvironment_soothe (h : w.Shaped config) {f g : Frame α} (hg : g.pos < w.size)
    (htick : tick.qualifies w.config.envTrigFreq = true) :
    let alone := f.advanceEnvironment w tick
    let later := f.advanceEnvironment (g.soothe w) tick
    (f.pos ≠ g.pos ∨ true ∉ (w.tile f.pos).stockpile.harvested →
      later.1 = alone.1 ∧ later.2.1 = alone.2.1) ∧
    (f.pos = g.pos → true ∈ (w.tile f.pos).stockpile.harvested →
      f.MissesHarvest w alone later) := by
  obtain ⟨hsame, hlacks⟩ := f.firing_soothe h hg tick
  have hlater : f.advanceEnvironment (g.soothe w) tick = (f.firing (g.soothe w) tick,
      f.answering w.config (f.firing (g.soothe w) tick), f.soothe (g.soothe w)) :=
    f.advanceEnvironment_eq htick
  simp only [f.advanceEnvironment_eq htick, hlater]
  constructor
  · intro hquiet
    rw [hsame hquiet]
    exact ⟨rfl, rfl⟩
  · intro hpos hflag
    have hfired := hlacks hpos hflag
    refine ⟨hfired, rfl, rfl, f.answering_eq_withThreads _ _ _, fun tag htag hdeaf => ?_⟩
    obtain ⟨before, tag', after, htag', halone, hlater⟩ := hfired
    obtain rfl : tag = tag' := Option.some.inj (htag.symm.trans htag')
    rw [halone, hlater, f.answering_unresolved w.config before after hdeaf]

end Frame

namespace World

variable {config : Config α} {w : World α}

/-- Two frames pass in one tick, in either order. The world is the same in the end. Each frame fires the same
tags and is the same frame, unless the two belong to one cell that has been harvested: then the one that
passes later does not learn of the harvest, and is otherwise told the same. -/
theorem passes_commute_but_harvest (h : Run config w) {f g : Frame α} (hf : f.pos < w.size)
    (hg : g.pos < w.size) {tick : Tick} (htick : tick.qualifies config.envTrigFreq = true) :
    let first := f.advanceEnvironment w tick
    let second := g.advanceEnvironment first.2.2 tick
    let first' := g.advanceEnvironment w tick
    let second' := f.advanceEnvironment first'.2.2 tick
    second.2.2 = second'.2.2 ∧
    (f.pos ≠ g.pos ∨ true ∉ (w.tile f.pos).stockpile.harvested →
      second'.1 = first.1 ∧ second'.2.1 = first.2.1 ∧
      second.1 = first'.1 ∧ second.2.1 = first'.2.1) ∧
    (f.pos = g.pos → true ∈ (w.tile f.pos).stockpile.harvested →
      f.MissesHarvest w first second' ∧ g.MissesHarvest w first' second) := by
  have hshape := h.shaped
  obtain rfl : w.config = config := hshape.config_eq
  obtain ⟨hfsame, hfmisses⟩ := f.advanceEnvironment_soothe hshape hg htick
  obtain ⟨hgsame, hgmisses⟩ := g.advanceEnvironment_soothe hshape hf htick
  have hfirst : (f.advanceEnvironment w tick).2.2 = f.soothe w := by rw [f.advanceEnvironment_eq htick]
  have hfirst' : (g.advanceEnvironment w tick).2.2 = g.soothe w := by rw [g.advanceEnvironment_eq htick]
  intro first second first' second'
  simp only [second, second', first, first', hfirst, hfirst']
  refine ⟨?_, ?_, ?_⟩
  · rw [g.advanceEnvironment_eq (w := f.soothe w) htick, f.advanceEnvironment_eq (w := g.soothe w) htick]
    exact f.soothe_comm g w
  · intro hquiet
    have hquiet' : g.pos ≠ f.pos ∨ true ∉ (w.tile g.pos).stockpile.harvested := by
      by_cases hpos : f.pos = g.pos
      · exact .inr (hpos ▸ hquiet.resolve_left fun hne => hne hpos)
      · exact .inl (Ne.symm hpos)
    exact ⟨(hfsame hquiet).1, (hfsame hquiet).2, (hgsame hquiet').1, (hgsame hquiet').2⟩
  · intro hpos hflag
    exact ⟨hfmisses hpos hflag, hgmisses hpos.symm (hpos ▸ hflag)⟩

/-- A founder has just harvested its lower level. -/
theorem exists_harvested : ∃ w, Run doorstep w ∧ w.size = 2 ∧
    (w.tile 0).stockpile.harvested = [true, false] := by
  have hrun : leadsTo doorstep [.found 0 .zero] (fun _ v =>
      decide (v.size = 2 ∧ (v.tile 0).stockpile.harvested = [false, false])) = true := by
    decide +kernel
  obtain ⟨w₀, ids, v, h₀, hv, ht⟩ := exists_history hrun
  obtain ⟨hsize, hnone⟩ := of_decide_eq_true ht
  have hpos : 0 < v.size := by omega
  refine ⟨_, (Run.of_history h₀ hv).edit (.harvest 0 0) hpos fun _ => nofun, ?_, ?_⟩
  · rw [size_modify, hsize]
  · rw [tile_modify_same _ _ hpos]
    change (v.tile 0).stockpile.harvested.modify 0 (fun _ => true) = _
    rw [hnone]
    rfl

def lookout (pos : Nat) (facing : Direction) : Frame Float := .build pos facing doorstep (.ofSeed 7)

/-- After the founder has harvested, its frame to the right and the frame that faces back do not mind each
other, but of its frames up and to the right the one that passes later does not learn of the harvest. -/
theorem passes_commute_but_harvest_lookout : ∃ w, Run doorstep w ∧
    (let first := (lookout 0 .right).advanceEnvironment w .zero
     let second := (lookout 1 .left).advanceEnvironment first.2.2 .zero
     let first' := (lookout 1 .left).advanceEnvironment w .zero
     let second' := (lookout 0 .right).advanceEnvironment first'.2.2 .zero
     second.2.2 = second'.2.2 ∧ second'.1 = first.1 ∧ second.2.1 = first'.2.1) ∧
    (let first := (lookout 0 .right).advanceEnvironment w .zero
     let second := (lookout 0 .up).advanceEnvironment first.2.2 .zero
     let first' := (lookout 0 .up).advanceEnvironment w .zero
     let second' := (lookout 0 .right).advanceEnvironment first'.2.2 .zero
     second.2.2 = second'.2.2 ∧ (lookout 0 .right).MissesHarvest w first second' ∧
       (lookout 0 .up).MissesHarvest w first' second) := by
  obtain ⟨w, hw, hsize, hharvested⟩ := exists_harvested
  have hfounder : (lookout 0 .right).pos < w.size := by simp only [lookout, Frame.build]; omega
  have hsibling : (lookout 0 .up).pos < w.size := hfounder
  have hback : (lookout 1 .left).pos < w.size := by simp only [lookout, Frame.build]; omega
  have hflag : true ∈ (w.tile (lookout 0 .right).pos).stockpile.harvested := by
    change true ∈ (w.tile 0).stockpile.harvested
    rw [hharvested]
    decide
  have htick : Tick.zero.qualifies doorstep.envTrigFreq = true := rfl
  obtain ⟨hworld, hneighbors, -⟩ := passes_commute_but_harvest hw hfounder hback htick
  obtain ⟨htags, -, -, hframe⟩ := hneighbors (.inl (by decide))
  obtain ⟨hworld', -, hsiblings⟩ := passes_commute_but_harvest hw hfounder hsibling htick
  exact ⟨w, hw, ⟨hworld, htags, hframe⟩, hworld', hsiblings rfl hflag⟩

/-- Two frames of one cell of which the one hears more if it passes first. -/
theorem siblings_interfere : ∃ w, Run doorstep w ∧ (lookout 0 .right).pos < w.size ∧
    (lookout 0 .up).pos < w.size ∧ Tick.zero.qualifies doorstep.envTrigFreq = true ∧
    ((lookout 0 .right).advanceEnvironment ((lookout 0 .up).advanceEnvironment w .zero).2.2 .zero).1 ≠
      ((lookout 0 .right).advanceEnvironment w .zero).1 := by
  obtain ⟨w, hw, hsize, hharvested⟩ := exists_harvested
  have hpos : (lookout 0 .up).pos < w.size := by simp only [lookout, Frame.build]; omega
  have hconfig := hw.shaped.config_eq
  have htick : Tick.zero.qualifies w.config.envTrigFreq = true := hconfig ▸ rfl
  have hflag : true ∈ (w.tile (lookout 0 .right).pos).stockpile.harvested := by
    change true ∈ (w.tile 0).stockpile.harvested
    rw [hharvested]
    decide
  refine ⟨w, hw, hpos, hpos, rfl, fun hsame => ?_⟩
  have hworld : ((lookout 0 .up).advanceEnvironment w .zero).2.2 = (lookout 0 .up).soothe w := by
    rw [Frame.advanceEnvironment_eq _ htick]
  rw [hworld] at hsame
  obtain ⟨-, hmisses⟩ := (lookout 0 .right).advanceEnvironment_soothe hw.shaped hpos htick
  obtain ⟨before, tag, after, -, halone, hlater⟩ := (hmisses rfl hflag).fired
  have hlength := congrArg List.length (hlater.symm.trans (hsame.trans halone))
  simp only [List.length_append, List.length_cons] at hlength
  omega

end World

end Vivarium
