import Vivarium.Proofs.World.Sound
/-!
# Shapes

A tile keeps a flag, a counter or a threshold for every organizational level, and one more flag for
each frame's pauses. Nothing that is done to a world changes how many there are, whether its frames do it,
the world itself, or whoever owns the world and edits its tiles.
-/
namespace Vivarium

variable {α : Type} [Scalar α] {nlev : Nat}

/-! ## Channels and stockpiles -/

structure Channel.Shaped (nlev : Nat) (c : Channel) : Prop where
  generations : c.generations.length = nlev
  ages : c.ages.length = nlev
  expirations : c.expirations.length = nlev
  ids : ∀ ids, c.ids = some ids → ids.length = nlev

namespace Channel

theorem shaped_empty (levels : List Level) : (empty levels).Shaped levels.length := by
  refine ⟨List.length_replicate, List.length_replicate, List.length_map _, ?_⟩
  intro ids h
  cases h

theorem shaped_founder (levels : List Level) (g : Generator) :
    (founder levels g).1.Shaped levels.length := by
  refine ⟨List.length_replicate, List.length_replicate, List.length_map _, ?_⟩
  intro ids h
  obtain rfl := Option.some.inj h
  exact g.length_draw levels.length

/-- An offspring gets as many identifiers, generations and ages as there are levels, whatever its sire
brings along. -/
theorem shaped_ofSire (levels : List Level) (record : SireRecord) (g : Generator) :
    (ofSire levels record g).1.Shaped levels.length := by
  have hlength : (inheritAll record (List.range levels.length) g).1.length = levels.length := by
    rw [length_inheritAll, List.length_range]
  refine ⟨?_, ?_, List.length_map _, ?_⟩
  · exact (List.length_map _).trans hlength
  · exact (List.length_map _).trans hlength
  · intro ids h
    obtain rfl := Option.some.inj h
    exact (List.length_map _).trans hlength

variable {c : Channel}

theorem Shaped.incrementAge (h : c.Shaped nlev) (level : Nat) (delta : α) :
    (c.incrementAge level delta).Shaped nlev :=
  ⟨h.generations, (List.length_modify _ _ _).trans h.ages, h.expirations, h.ids⟩

theorem Shaped.advanceAges (h : c.Shaped nlev) (ticks : UInt64) :
    (c.advanceAges ticks).Shaped nlev := by
  cases hids : c.ids with
  | none =>
    simp only [Channel.advanceAges, hids]
    exact h
  | some ids =>
    simp only [Channel.advanceAges, hids]
    exact ⟨h.generations, (List.length_map _).trans h.ages, h.expirations,
      fun _ e => h.ids _ (hids.trans e)⟩

theorem Shaped.clear (h : c.Shaped nlev) : c.clear.Shaped nlev := by
  refine ⟨(List.length_map _).trans h.generations, (List.length_map _).trans h.ages, h.expirations, ?_⟩
  intro ids e
  cases e

end Channel

namespace Stockpile

variable (s : Stockpile α)

theorem length_harvested_contribute (amount : α) (d : Direction) :
    (s.contribute amount d).harvested.length = s.harvested.length := by
  unfold contribute
  split
  · rfl
  · rfl

theorem length_harvested_grow (amount : α) : (s.grow amount).harvested.length = s.harvested.length := by
  unfold grow
  split
  · rfl
  · rfl

omit [Scalar α] in
theorem length_harvested_resetHarvests (n : Nat) :
    (s.resetHarvests n).harvested.length = s.harvested.length := by
  unfold resetHarvests
  induction List.range n generalizing s with
  | nil => rfl
  | cons level rest ih => exact (ih _).trans (List.length_modify _ _ _)

end Stockpile

/-! ## Tiles -/

structure Tile.Shaped (nlev : Nat) (t : Tile α) : Prop where
  channel : t.channel.Shaped nlev
  harvested : t.stockpile.harvested.length = nlev
  paused : ∀ d, (t.controls.get d).paused.length = nlev + 1

namespace Tile.Shaped

variable {t : Tile α}

omit [Scalar α] in
theorem withStockpile (h : t.Shaped nlev) {s : Stockpile α}
    (hs : s.harvested.length = t.stockpile.harvested.length) :
    ({ t with stockpile := s } : Tile α).Shaped nlev := ⟨h.channel, hs.trans h.harvested, h.paused⟩

omit [Scalar α] in
theorem withControls (h : t.Shaped nlev) (dir : Direction) {change : Controls α → Controls α}
    (hc : ∀ c, (change c).paused.length = c.paused.length) :
    ({ t with controls := t.controls.modify dir change } : Tile α).Shaped nlev := by
  refine ⟨h.channel, h.harvested, fun d => ?_⟩
  change ((t.controls.modify dir change).get d).paused.length = _
  by_cases hd : d = dir
  · rw [hd, PerFacing.get_modify_same, hc]
    exact h.paused dir
  · rw [PerFacing.get_modify_other _ _ hd]
    exact h.paused d

theorem tidy (h : t.Shaped nlev) : t.tidy.Shaped nlev := by
  refine ⟨h.channel, h.harvested, fun d => ?_⟩
  change ((t.controls.map Controls.reset).get d).paused.length = _
  rw [PerFacing.get_map]
  exact (List.length_map _).trans (h.paused d)

theorem occupy (h : t.Shaped nlev) : t.occupy.Shaped nlev :=
  ⟨h.channel, h.harvested, h.tidy.paused⟩

theorem kill (h : t.Shaped nlev) : t.kill.Shaped nlev := ⟨h.channel, h.harvested, h.tidy.paused⟩

omit [Scalar α] in
theorem forget (h : t.Shaped nlev) : t.forget.Shaped nlev := ⟨h.channel.clear, h.harvested, h.paused⟩

end Tile.Shaped

theorem Tile.shaped_barren (levels : List Level) :
    (barren levels.length levels : Tile α).Shaped levels.length := by
  refine ⟨Channel.shaped_empty levels, List.length_replicate, fun d => ?_⟩
  change ((PerFacing.replicate (Controls.new levels.length)).get d).paused.length = _
  rw [PerFacing.get_replicate]
  exact List.length_replicate

/-! ## Edits -/

/-- What the owner of a world may do to a tile directly. -/
inductive Tile.Edit (α : Type) where
  | request (amount : α)
  | requestFraction (fraction : α)
  | contribute (amount : α) (d : Direction)
  | harvest (level : Nat) (amount : α)
  | resetHarvest (level : Nat)
  | clearChannel
  | settleFamily (parent : Option Nat) (birth : Tick) (prevChan : Option ChannelId)
  | addChild (pos : Nat)
  | resetFamily
  | push (sire : Sire α FrameOp)
  | pop
  | drain
  | deliver (d : Direction) (m : Message α)
  | clearInbox (d : Direction)
  | setInbox (d : Direction) (active : Bool)
  | pause (d : Direction) (level : Nat)
  | resume (d : Direction) (level : Nat)
  | pauseAll (d : Direction)
  | resumeAll (d : Direction)
  | resetControls (d : Direction)
  | setReserve (d : Direction) (amount : α) (duration : UInt32)
  | adjustReserve (d : Direction) (delta : α) (duration : UInt32)
  | tryClearReserve (d : Direction)

namespace Tile.Edit

def stockpile (t : Tile α) (f : Stockpile α → Stockpile α) : Tile α :=
  { t with stockpile := f t.stockpile }

def control (t : Tile α) (d : Direction) (f : Controls α → Controls α) : Tile α :=
  { t with controls := t.controls.modify d f }

def apply (t : Tile α) : Edit α → Tile α
  | request amount => stockpile t fun s => (s.request amount).2
  | requestFraction fraction => stockpile t fun s => (s.requestFraction fraction).2
  | contribute amount d => stockpile t (·.contribute amount d)
  | harvest level amount => stockpile t fun s => (s.harvest level amount).2
  | resetHarvest level => stockpile t (·.resetHarvest level)
  | clearChannel => { t with channel := t.channel.clear }
  | settleFamily parent birth prevChan => { t with family := .settled parent birth prevChan }
  | addChild pos => { t with family := t.family.addChild pos }
  | resetFamily => { t with family := .none }
  | push sire => { t with intake := t.intake ++ [sire] }
  | pop => { t with intake := t.intake.tail }
  | drain => { t with intake := [] }
  | deliver d m => { t with inboxes := t.inboxes.modify d (· ++ [m]) }
  | clearInbox d => { t with inboxes := t.inboxes.modify d fun _ => [] }
  | setInbox d active => control t d (·.setInbox active)
  | pause d level => control t d (·.pause level)
  | resume d level => control t d (·.resume level)
  | pauseAll d => control t d (·.pauseAll)
  | resumeAll d => control t d (·.resumeAll)
  | resetControls d => control t d (·.reset)
  | setReserve d amount duration => control t d fun c => { c with reserve := .set amount duration }
  | adjustReserve d delta duration =>
    control t d fun c => { c with reserve := c.reserve.adjust delta duration }
  | tryClearReserve d => control t d fun c => { c with reserve := c.reserve.tryClear }

/-- No edit spoils the shape of a tile. -/
theorem shaped_apply {t : Tile α} (h : t.Shaped nlev) (e : Edit α) : (e.apply t).Shaped nlev := by
  cases e with
  | request | requestFraction => exact h.withStockpile rfl
  | contribute amount d => exact h.withStockpile (t.stockpile.length_harvested_contribute amount d)
  | harvest | resetHarvest => exact h.withStockpile (List.length_modify _ _ _)
  | clearChannel => exact ⟨h.channel.clear, h.harvested, h.paused⟩
  | setInbox d | setReserve d | adjustReserve d | tryClearReserve d => exact h.withControls d fun _ => rfl
  | pause d | resume d => exact h.withControls d fun _ => List.length_modify _ _ _
  | pauseAll d | resumeAll d | resetControls d => exact h.withControls d fun _ => List.length_map _
  | _ => exact ⟨h.channel, h.harvested, h.paused⟩

/-- An edit queues no sire but the one it brings. -/
theorem mem_intake_apply {t : Tile α} {e : Edit α} {s : Sire α FrameOp}
    (h : s ∈ (e.apply t).intake) : s ∈ t.intake ∨ e = .push s := by
  cases e with
  | push sire =>
    cases List.mem_append.1 h with
    | inl h => exact .inl h
    | inr h => exact .inr (congrArg push (List.mem_singleton.1 h).symm)
  | pop => exact .inl (List.mem_of_mem_tail h)
  | drain => cases h
  | _ => exact .inl h

end Tile.Edit

/-! ## Worlds -/

namespace World

/-- The world has the settings, the trigger tags that go with them, and tiles of the right shape. -/
structure Shaped (config : Config α) (w : World α) : Prop where
  config_eq : w.config = config
  triggerTags_eq : w.triggerTags = .new config.seed config.nlev
  tiles : ∀ q, (w.tile q).Shaped config.nlev

theorem shaped_new {config : Config α} {w : World α} (h : World.new config = .ok w) :
    w.Shaped config := by
  obtain ⟨hv, hc, -, -⟩ := of_new_eq_ok h
  have hlevels := (Config.levels_of_validate hv).1
  refine ⟨hc, ?_, fun q => ?_⟩
  · obtain ⟨_, _, h⟩ := bind_eq_ok h
    obtain ⟨_, _, h⟩ := bind_eq_ok h
    obtain rfl := Except.ok.inj h
    rfl
  · rw [tile_new h, ← hlevels]
    exact Tile.shaped_barren config.levels

namespace Shaped

variable {config : Config α} {w v : World α} {pos : Nat}

theorem modify (h : w.Shaped config) (pos : Nat) {change : Tile α → Tile α}
    (hc : ∀ t, t.Shaped config.nlev → (change t).Shaped config.nlev) :
    (w.modify pos change).Shaped config := by
  refine ⟨h.config_eq, h.triggerTags_eq, fun q => ?_⟩
  rw [tile_modify]
  split
  · exact hc _ (h.tiles q)
  · exact h.tiles q

/-- A stockpile may take the place of any other. -/
theorem setStockpile (h : w.Shaped config) (pos : Nat) {s : Stockpile α}
    (hs : s.harvested.length = config.nlev) : (w.modifyStockpile pos fun _ => s).Shaped config :=
  h.modify pos fun _ ht => ht.withStockpile (hs.trans ht.harvested.symm)

theorem contribute (h : w.Shaped config) (pos : Nat) (amount : α) (d : Direction) :
    (w.modifyStockpile pos (·.contribute amount d)).Shaped config :=
  h.modify pos fun t ht => ht.withStockpile (t.stockpile.length_harvested_contribute amount d)

theorem modifyControls (h : w.Shaped config) (pos : Nat) (d : Direction)
    {change : Controls α → Controls α} (hc : ∀ c, (change c).paused.length = c.paused.length) :
    (w.modifyControls pos d change).Shaped config := h.modify pos fun _ ht => ht.withControls d hc

theorem modifyInbox (h : w.Shaped config) (pos : Nat) (d : Direction)
    (change : List (Message α) → List (Message α)) : (w.modifyInbox pos d change).Shaped config :=
  h.modify pos fun _ ht => ⟨ht.channel, ht.harvested, ht.paused⟩

theorem receive (h : w.Shaped config) (pos : Nat) (sire : Sire α FrameOp) :
    (w.receive pos sire).Shaped config :=
  h.modify pos fun _ ht => ⟨ht.channel, ht.harvested, ht.paused⟩

theorem incrementAge (h : w.Shaped config) (pos level : Nat) (delta : α) :
    (w.modifyChannel pos (·.incrementAge level delta)).Shaped config :=
  h.modify pos fun _ ht => ⟨ht.channel.incrementAge level delta, ht.harvested, ht.paused⟩

theorem setMark (h : w.Shaped config) (pos : Nat) (mark : Apoptosis) :
    (w.setMark pos mark).Shaped config :=
  h.modify pos fun _ ht => ⟨ht.channel, ht.harvested, ht.paused⟩

/-! ### Frames -/

theorem sendResource (h : w.Shaped config) (pos : Nat) (dir : Direction) (fraction : α) :
    (w.sendResource pos dir fraction).Shaped config := by
  unfold World.sendResource
  by_cases hl : (w.tile (w.neighbor pos dir)).live = true
  · simp only [hl, if_true]
    have hdebit : (w.modifyStockpile pos fun _ =>
        ((w.tile pos).stockpile.requestFraction fraction).2).Shaped config :=
      h.setStockpile pos (h.tiles pos).harvested
    exact hdebit.contribute _ _ _
  · simp only [hl, Bool.false_eq_true, if_false]
    exact h

theorem tryReproduce (h : w.Shaped config) (pos : Nat) (facing : Direction) (relative : α)
    (level : Nat) (program : Program FrameOp) :
    (w.tryReproduce pos facing relative level program).2.Shaped config := by
  unfold World.tryReproduce
  cases w.reproductionLevel? pos facing level with
  | none => exact h
  | some used =>
    have hdebit : (w.modifyStockpile pos fun _ =>
        ((w.tile pos).stockpile.request w.config.repThresh).2).Shaped config :=
      h.setStockpile pos (h.tiles pos).harvested
    exact hdebit.receive _ _

/-- No instruction spoils the shape. -/
theorem effect {facing : Direction} {program : Program FrameOp} (h : w.Shaped config)
    (he : Effect pos facing program w v) : v.Shaped config := by
  cases he with
  | control dir change hc => exact h.modifyControls pos dir fun c => (hc c).paused
  | mailInside dir m => exact h.modifyInbox pos dir _
  | mailOut dir m _ => exact h.modifyInbox _ _ _
  | send dir fraction => exact h.sendResource pos dir fraction
  | reproduce relative level => exact h.tryReproduce pos facing relative level program
  | age level delta => exact h.incrementAge pos level delta
  | mark mark => exact h.setMark pos mark

theorem execute (h : w.Shaped config) (f : Frame α) : (f.execute w).2.Shaped config :=
  f.execute_induction (fun _ _ he h => h.effect he) w h

theorem advanceEnvironment (h : w.Shaped config) (f : Frame α) (tick : Tick) :
    (f.advanceEnvironment w tick).2.2.Shaped config := by
  unfold Frame.advanceEnvironment
  split
  · have hharvest : (w.modifyStockpile (f.drawChance w.config).2.pos
        (·.resetHarvests w.config.nlev)).Shaped config :=
      h.modify _ fun t ht => ht.withStockpile (t.stockpile.length_harvested_resetHarvests _)
    exact hharvest.modifyControls _ _ fun _ => List.length_map _
  · exact h

theorem reset (h : w.Shaped config) (f : Frame α) : (f.reset w).2.Shaped config :=
  (h.modifyControls f.pos f.facing fun _ => List.length_map _).modifyInbox _ _ _

/-! ### Settlement -/

theorem credits (h : w.Shaped config) (pos : Nat) (sires : List (Sire α FrameOp)) :
    (sires.foldl credit (w.clearIntake pos)).Shaped config := by
  refine List.foldlRecOn sires credit (motive := fun v => v.Shaped config) ?_ fun v hv sire _ => ?_
  · exact h.modify pos fun _ ht => ⟨ht.channel, ht.harvested, ht.paused⟩
  · exact hv.contribute _ _ _

/-- A change of the generator only. -/
theorem reseed (h : w.Shaped config) (rng : Generator) : ({ w with rng } : World α).Shaped config :=
  ⟨h.config_eq, h.triggerTags_eq, h.tiles⟩

theorem found (h : w.Shaped config) (hl : config.levels.length = config.nlev) (pos : Nat)
    (tick : Tick) : (w.found pos tick).Shaped config := by
  have hchannel := Channel.shaped_founder w.config.levels w.rng
  rw [h.config_eq, hl, ← h.config_eq] at hchannel
  refine (h.reseed _).modify pos fun t ht => ?_
  exact Tile.Shaped.occupy ⟨h.config_eq ▸ hchannel, ht.harvested, ht.paused⟩

theorem install (h : w.Shaped config) (hl : config.levels.length = config.nlev) (pos : Nat)
    (tick : Tick) (sire : Sire α FrameOp) : (w.install pos tick sire).Shaped config := by
  have hchannel := Channel.shaped_ofSire w.config.levels sire.record w.rng
  rw [h.config_eq, hl, ← h.config_eq] at hchannel
  unfold World.install
  refine Shaped.modify (Shaped.modify (Shaped.modify (h.reseed _) pos ?_) _ ?_) pos ?_
  · exact fun t ht => ⟨h.config_eq ▸ hchannel, ht.harvested, ht.paused⟩
  · exact fun t ht => ⟨ht.channel, ht.harvested, ht.paused⟩
  · exact fun t ht => (ht.withStockpile (t.stockpile.length_harvested_contribute _ _)).occupy

/-- Deeds keep the shape of all tiles. -/
theorem perform (h : w.Shaped config) (hl : config.levels.length = config.nlev) {d : Deed α}
    (hd : d.perform w = .ok v) : v.Shaped config := by
  obtain ⟨-, hact⟩ := Deed.of_perform_eq_ok hd
  cases d with
  | settle pos tick =>
    obtain ⟨⟨program, u⟩, hs, rfl⟩ := map_eq_ok hact
    cases hin : (w.tile pos).intake with
    | nil =>
      obtain ⟨-, rfl⟩ := Prod.mk.inj (Except.ok.inj ((settleSire_nil hin tick).symm.trans hs))
      exact h
    | cons sire losers =>
      obtain ⟨-, rfl⟩ := of_settleSire_eq_ok hin hs
      exact (h.credits pos losers).install hl pos tick sire
  | refund pos =>
    obtain ⟨⟨n, u⟩, hr, rfl⟩ := map_eq_ok hact
    obtain rfl := of_refundIntake_eq_ok hr
    exact h.credits pos _
  | found pos tick =>
    obtain rfl := Except.ok.inj hact
    exact h.found hl pos tick
  | reproduce pos facing relative level program =>
    obtain rfl := Except.ok.inj hact
    exact h.tryReproduce pos facing relative level program
  | mark pos m =>
    obtain rfl := Except.ok.inj hact
    exact h.setMark pos m
  | die pos =>
    obtain rfl := Except.ok.inj hact
    unfold World.applyApoptosis
    cases (w.tile pos).mark with
    | unmarked => exact h
    | partialDeath => exact h.modify pos fun _ ht => ht.kill
    | completeDeath => exact h.modify pos fun _ ht => ht.kill.forget
  | vacate pos =>
    obtain rfl := Except.ok.inj hact
    exact h.modify pos fun _ ht => ht.kill.forget
  | environment f tick =>
    obtain rfl := Except.ok.inj hact
    exact h.advanceEnvironment f tick
  | messages f =>
    obtain rfl := Except.ok.inj hact
    exact h.modifyInbox f.pos f.facing _
  | execute f =>
    obtain rfl := Except.ok.inj hact
    unfold Frame.stepOnce
    by_cases hp : f.hasProgram = true
    · simp only [hp, if_true]
      exact h.execute f
    · simp only [hp, Bool.false_eq_true, if_false]
      exact h
  | reset f =>
    obtain rfl := Except.ok.inj hact
    exact h.reset f
  | age pos ticks =>
    obtain rfl := Except.ok.inj hact
    exact h.modify pos fun _ ht => ⟨ht.channel.advanceAges ticks, ht.harvested, ht.paused⟩
  | ageAt pos level delta =>
    obtain rfl := Except.ok.inj hact
    exact h.incrementAge pos level delta
  | grow pos amount =>
    obtain rfl := Except.ok.inj hact
    exact h.modify pos fun t ht => ht.withStockpile (t.stockpile.length_harvested_grow amount)

end Shaped

/-- The worlds that the owner of a new world can bring about, by deeds and by edits, both on the grid.
Sires that the owner queues name a parent on the grid. -/
inductive Run (config : Config α) : World α → Prop where
  | new {w : World α} : World.new config = .ok w → Run config w
  | deed {w v : World α} (d : Deed α) : Run config w → d.perform w = .ok v → Run config v
  | edit {w : World α} {pos : Nat} (e : Tile.Edit α) : Run config w → pos < w.size →
      (∀ sire, e = .push sire → sire.record.sourcePos < w.size) → Run config (w.modify pos e.apply)

namespace Run

variable {config : Config α} {w : World α}

theorem validate (h : Run config w) : config.validate = .ok () := by
  induction h with
  | new h => exact (of_new_eq_ok h).1
  | deed _ _ _ ih | edit _ _ _ _ ih => exact ih

/-- Whatever its owner does, a world keeps its shape. -/
theorem shaped (h : Run config w) : w.Shaped config := by
  have hl := (Config.levels_of_validate h.validate).1
  induction h with
  | new h => exact shaped_new h
  | deed d _ hd ih => exact ih.perform hl hd
  | edit e _ _ _ ih => exact ih.modify _ fun t ht => e.shaped_apply ht

theorem sound (h : Run config w) : w.Sound := by
  induction h with
  | new h => exact sound_new h
  | deed d _ hd ih => exact ih.perform hd
  | @edit w pos e _ _ hpush ih =>
    refine ⟨?_, ih.levels_length, ih.nlev_pos, fun q sire hs => ?_⟩
    · rw [size_modify]
      exact ih.grid_size
    · rw [size_modify]
      rw [tile_modify] at hs
      split at hs
      · rcases Tile.Edit.mem_intake_apply hs with hs | he
        · exact ih.sources q sire hs
        · exact hpush sire he
      · exact ih.sources q sire hs

theorem grid_eq (h : Run config w) : w.grid = ⟨config.gridWidth, config.gridHeight⟩ := by
  induction h with
  | new h => exact (of_new_eq_ok h).2.2.1
  | @deed w v d _ hd ih =>
    have hgrid : v.grid = w.grid := Kept.history (I := fun _ _ u => u.grid = w.grid)
      (fun _ _ _ _ _ _ hu hs => hs.ground.2.1.trans hu) (History.start.act d hd) rfl
    exact hgrid.trans ih
  | edit _ _ _ _ ih => exact ih

/-- A history is a run without edits. -/
theorem of_history {w₀ : World α} {deeds : List (Deed α)} {ids : List ChannelId}
    (h₀ : World.new config = .ok w₀) (h : History w₀ deeds ids w) : Run config w := by
  induction h with
  | start => exact .new h₀
  | act d _ hd ih => exact .deed d ih hd

end Run

end World

end Vivarium
