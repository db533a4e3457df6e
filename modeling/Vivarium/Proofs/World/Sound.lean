import Vivarium.Proofs.World.Intake
/-!
# Sound worlds

A world that was set up from a valid configuration stays sound: it has the tiles of its grid and
the levels of its settings, and every waiting sire has a parent on the grid. No deed on the grid of
a sound world fails.
-/
namespace Vivarium

variable {α : Type} [Scalar α] {w w' : World α}

/-- A check that did not fail was passed, and so was what comes after it. -/
theorem ite_error_eq_ok {ε β : Type} {p : Prop} [Decidable p] {e : ε} {x : Except ε β} {b : β} :
    (if p then .error e else x) = .ok b ↔ ¬p ∧ x = .ok b := by
  by_cases hp : p
  · rw [if_pos hp]
    exact iff_of_false nofun fun h => h.1 hp
  · rw [if_neg hp, and_iff_right hp]

namespace Config

variable {config : Config α}

/-- What the settings of a valid configuration satisfy. -/
structure Valid (config : Config α) : Prop where
  width : config.gridWidth ≠ 0
  height : config.gridHeight ≠ 0
  nlev : config.nlev ≠ 0
  levels : config.levels.length = config.nlev
  period : config.envTrigFreq ≠ 0
  finite : Scalar.isFinite config.repThresh = true
  nonneg : ¬config.repThresh < 0
  chance : isChance config.stochasticTriggerFreq = true
  cores : triggerHeadroom < config.hwMaxCores
  callDepth : config.hwMaxCallDepth ≠ 0
  affinity : isChance config.affinityThreshold = true

/-- A configuration is let through just if none of its settings is at fault. -/
theorem validate_eq_ok_iff : config.validate = .ok () ↔ config.Valid := by
  unfold validate
  simp only [ite_error_eq_ok, not_or, ne_eq, not_not, Bool.or_eq_true, Bool.not_eq_true',
    Bool.not_eq_false, decide_eq_true_eq, Nat.not_le, and_true]
  constructor
  · rintro ⟨⟨hwidth, hheight⟩, hnlev, hlevels, hperiod, ⟨hfinite, hnonneg⟩, hchance, hcores, hdepth,
      haffinity⟩
    exact ⟨hwidth, hheight, hnlev, hlevels, hperiod, hfinite, hnonneg, hchance, hcores, hdepth,
      haffinity⟩
  · intro h
    exact ⟨⟨h.width, h.height⟩, h.nlev, h.levels, h.period, ⟨h.finite, h.nonneg⟩, h.chance, h.cores,
      h.callDepth, h.affinity⟩

theorem levels_of_validate (h : config.validate = .ok ()) :
    config.levels.length = config.nlev ∧ 0 < config.nlev :=
  ⟨(validate_eq_ok_iff.1 h).levels, Nat.pos_of_ne_zero (validate_eq_ok_iff.1 h).nlev⟩

end Config

namespace World

structure Sound (w : World α) : Prop where
  grid_size : w.grid.size = w.size
  levels_length : w.config.levels.length = w.config.nlev
  nlev_pos : 0 < w.config.nlev
  sources : ∀ q, ∀ s ∈ (w.tile q).intake, s.record.sourcePos < w.size

/-- A change of one tile leaves all others alone, and off the grid it changes none. -/
theorem tile_modify (w : World α) (pos : Nat) (change : Tile α → Tile α) (q : Nat) :
    (w.modify pos change).tile q =
      if q = pos ∧ pos < w.size then change (w.tile q) else w.tile q := by
  by_cases hq : q = pos
  · by_cases hp : pos < w.size
    · rw [if_pos ⟨hq, hp⟩, hq, tile_modify_same w change hp]
    · have hp' : ¬pos < w.tiles.size := hp
      rw [if_neg fun h => hp h.2, hq]
      simp [tile, modify, hp']
  · rw [if_neg fun h => hq h.1, tile_modify_other w change hq]

/-- What a change keeps of a tile, it keeps of every tile. -/
theorem tile_modify_congr {β : Type} (g : Tile α → β) (w : World α) (pos q : Nat)
    {change : Tile α → Tile α} (hg : ∀ t, g (change t) = g t) :
    g ((w.modify pos change).tile q) = g (w.tile q) := by
  rw [tile_modify]
  by_cases h : q = pos ∧ pos < w.size
  · rw [if_pos h, hg]
  · rw [if_neg h]

omit [Scalar α] in
theorem modify_modify (w : World α) (pos : Nat) (f g : Tile α → Tile α) :
    (w.modify pos f).modify pos g = w.modify pos (g ∘ f) := by
  have htiles : (w.tiles.modify pos f).modify pos g = w.tiles.modify pos (g ∘ f) := by
    refine Array.ext (by simp only [Array.size_modify]) fun i hi hi' => ?_
    simp only [Array.getElem_modify]
    split
    · rfl
    · rfl
  rw [modify, modify, modify, htiles]

/-- Changes that do the same to a tile do the same to the world. -/
theorem modify_congr {w : World α} {pos : Nat} {f g : Tile α → Tile α}
    (h : f (w.tile pos) = g (w.tile pos)) : w.modify pos f = w.modify pos g := by
  have htiles : w.tiles.modify pos f = w.tiles.modify pos g := by
    refine Array.ext (by simp only [Array.size_modify]) fun i hi hi' => ?_
    rw [Array.getElem_modify, Array.getElem_modify]
    by_cases hpos : pos = i
    · subst hpos
      rw [Array.size_modify] at hi
      rw [tile, dif_pos hi] at h
      rw [if_pos rfl, if_pos rfl, h]
    · rw [if_neg hpos, if_neg hpos]
  rw [modify, modify, htiles]

omit [Scalar α] in
/-- Changes at two places, or changes that commute, can be made in either order. -/
theorem modify_comm (w : World α) {p q : Nat} {f g : Tile α → Tile α} (h : p ≠ q ∨ g ∘ f = f ∘ g) :
    (w.modify p f).modify q g = (w.modify q g).modify p f := by
  by_cases hpq : p = q
  · rw [hpq, modify_modify, modify_modify, h.resolve_left fun hne => hne hpq]
  · have htiles : (w.tiles.modify p f).modify q g = (w.tiles.modify q g).modify p f := by
      refine Array.ext (by simp only [Array.size_modify]) fun i hi hi' => ?_
      simp only [Array.getElem_modify]
      by_cases hp : p = i
      · rw [if_pos hp, if_pos hp, if_neg fun hq => hpq (hp.trans hq.symm)]
        rw [if_neg fun hq => hpq (hp.trans hq.symm)]
      · rw [if_neg hp, if_neg hp]
    rw [modify, modify, modify, modify, htiles]

/-! ## Where sires come from -/

theorem intake_modify (w : World α) (pos q : Nat) {change : Tile α → Tile α}
    (h : ∀ t, (change t).intake = t.intake) :
    ((w.modify pos change).tile q).intake = (w.tile q).intake :=
  tile_modify_congr (·.intake) w pos q h

@[simp] theorem intake_modifyStockpile (w : World α) (pos q : Nat)
    (f : Stockpile α → Stockpile α) :
    ((w.modifyStockpile pos f).tile q).intake = (w.tile q).intake :=
  w.intake_modify pos q fun _ => rfl

@[simp] theorem intake_modifyFamily (w : World α) (pos q : Nat) (f : Family → Family) :
    ((w.modifyFamily pos f).tile q).intake = (w.tile q).intake :=
  w.intake_modify pos q fun _ => rfl

@[simp] theorem intake_credits (w : World α) (sires : List (Sire α FrameOp)) (q : Nat) :
    ((sires.foldl credit w).tile q).intake = (w.tile q).intake :=
  List.foldlRecOn sires credit (motive := fun v => (v.tile q).intake = (w.tile q).intake) rfl
    fun v hv _ _ => Eq.trans (v.intake_modifyStockpile _ q _) hv

theorem intake_clearIntake (w : World α) (pos q : Nat) :
    ((w.clearIntake pos).tile q).intake = if q = pos then [] else (w.tile q).intake := by
  rw [clearIntake, tile_modify]
  by_cases hq : q = pos
  · by_cases hp : pos < w.size
    · rw [if_pos ⟨hq, hp⟩, if_pos hq]
    · have hp' : ¬pos < w.tiles.size := hp
      rw [if_neg fun h => hp h.2, if_pos hq, hq]
      simp [tile, hp', Tile.barren]
  · rw [if_neg fun h => hq h.1, if_neg hq]

@[simp] theorem intake_install (w : World α) (pos : Nat) (tick : Tick) (sire : Sire α FrameOp)
    (q : Nat) : ((w.install pos tick sire).tile q).intake = (w.tile q).intake := by
  rw [install, intake_modify, intake_modifyFamily, intake_modify]
  · rfl
  · exact fun _ => rfl
  · exact fun _ => rfl

@[simp] theorem intake_found (w : World α) (pos : Nat) (tick : Tick) (q : Nat) :
    ((w.found pos tick).tile q).intake = (w.tile q).intake := by
  rw [found, intake_modify]
  · rfl
  · exact fun _ => rfl

@[simp] theorem intake_sendResource (w : World α) (pos : Nat) (dir : Direction) (fraction : α)
    (q : Nat) : ((w.sendResource pos dir fraction).tile q).intake = (w.tile q).intake := by
  by_cases hl : (w.tile (w.neighbor pos dir)).live
  · simp only [sendResource, hl, if_true, intake_modifyStockpile]
  · simp only [sendResource, hl]
    rfl

theorem mem_intake_receive {target q : Nat} {sire s : Sire α FrameOp}
    (h : s ∈ ((w.receive target sire).tile q).intake) : s ∈ (w.tile q).intake ∨ s = sire := by
  rw [receive, tile_modify] at h
  by_cases hq : q = target ∧ target < w.size
  · rw [if_pos hq] at h
    cases List.mem_append.1 h with
    | inl h => exact .inl h
    | inr h => exact .inr (List.mem_singleton.1 h)
  · rw [if_neg hq] at h
    exact .inl h

theorem mem_intake_clearIntake {pos q : Nat} {s : Sire α FrameOp}
    (h : s ∈ ((w.clearIntake pos).tile q).intake) : s ∈ (w.tile q).intake := by
  rw [intake_clearIntake] at h
  by_cases hq : q = pos
  · rw [if_pos hq] at h
    cases h
  · rw [if_neg hq] at h
    exact h

theorem mem_intake_tryReproduce {pos : Nat} {facing : Direction} {relative : α} {level q : Nat}
    {program : Program FrameOp} {s : Sire α FrameOp}
    (h : s ∈ ((w.tryReproduce pos facing relative level program).2.tile q).intake) :
    s ∈ (w.tile q).intake ∨ (s.record.sourcePos = pos ∧
      s.endowment = (w.tile pos).stockpile.available w.config.repThresh) := by
  unfold tryReproduce at h
  cases hl : w.reproductionLevel? pos facing level with
  | none =>
    rw [hl] at h
    exact .inl h
  | some used =>
    rw [hl] at h
    rcases mem_intake_receive h with h | rfl
    · rw [intake_modifyStockpile] at h
      exact .inl h
    · exact .inr ⟨rfl, rfl⟩

/-- A sire that waits after a step waited before it, or was queued with what its parent, a tile of
the grid, was debited. -/
theorem Step.mem_intake {news : List ChannelId} {gains : List α} (h : w.Step news gains w')
    {q : Nat} {s : Sire α FrameOp} (hs : s ∈ (w'.tile q).intake) :
    s ∈ (w.tile q).intake ∨ (s.record.sourcePos < w.size ∧ s.endowment =
      (w.tile s.record.sourcePos).stockpile.available w.config.repThresh) := by
  cases h with
  | quiet pos change hc =>
    rw [intake_modify _ _ _ fun t => (hc t).intake] at hs
    exact .inl hs
  | forget _ =>
    rw [vacate, intake_modify] at hs
    · exact .inl hs
    · exact fun _ => rfl
  | send dir fraction _ =>
    rw [intake_sendResource] at hs
    exact .inl hs
  | @reproduce pos facing relative level program hp =>
    rcases mem_intake_tryReproduce hs with hs | ⟨rfl, he⟩
    · exact .inl hs
    · exact .inr ⟨hp, he⟩
  | @refund pos n w' _ hr =>
    obtain rfl := of_refundIntake_eq_ok hr
    rw [intake_credits] at hs
    exact .inl (mem_intake_clearIntake hs)
  | found tick _ =>
    rw [intake_found] at hs
    exact .inl hs
  | @settle pos tick sire losers p w' _ hin hst =>
    obtain ⟨-, rfl⟩ := of_settleSire_eq_ok hin hst
    rw [intake_install, intake_credits] at hs
    exact .inl (mem_intake_clearIntake hs)
  | grow amount _ =>
    rw [intake_modifyStockpile] at hs
    exact .inl hs

/-! ## Soundness -/

/-- A new world has a barren tile for every place. -/
theorem of_new_eq_ok {config : Config α} (h : World.new config = .ok w) :
    config.validate = .ok () ∧ w.config = config ∧ w.grid = ⟨config.gridWidth, config.gridHeight⟩ ∧
      w.tiles = Array.replicate w.grid.size (.barren config.nlev config.levels) := by
  obtain ⟨_, hv, h⟩ := bind_eq_ok h
  obtain ⟨grid, hg, h⟩ := bind_eq_ok h
  obtain rfl := Except.ok.inj h
  refine ⟨hv, rfl, ?_, rfl⟩
  unfold Grid.new at hg
  split at hg
  · cases hg
  · exact (Except.ok.inj hg).symm

theorem tile_new {config : Config α} (h : World.new config = .ok w) (q : Nat) :
    w.tile q = .barren config.nlev config.levels := by
  obtain ⟨-, hc, -, ht⟩ := of_new_eq_ok h
  have hold (tiles : Array (Tile α)) (hb : ∀ t ∈ tiles, t = .barren config.nlev config.levels) :
      (if h : q < tiles.size then tiles[q] else .barren config.nlev config.levels) =
        .barren config.nlev config.levels := by
    by_cases hq : q < tiles.size
    · rw [dif_pos hq]
      exact hb _ (Array.getElem_mem hq)
    · rw [dif_neg hq]
  rw [tile, hc, ht]
  exact hold _ fun t hm => Array.eq_of_mem_replicate hm

theorem sound_new {config : Config α} (h : World.new config = .ok w) : w.Sound := by
  obtain ⟨hv, hc, -, ht⟩ := of_new_eq_ok h
  have hlev := Config.levels_of_validate hv
  constructor
  · rw [size, ht, Array.size_replicate]
  · rw [hc]
    exact hlev.1
  · rw [hc]
    exact hlev.2
  · intro q s hs
    rw [tile_new h] at hs
    cases hs

/-- Steps keep a world sound. -/
theorem Sound.step {news : List ChannelId} {gains : List α} (hw : w.Sound)
    (h : w.Step news gains w') : w'.Sound := by
  obtain ⟨hc, hg, hn, -⟩ := h.ground
  constructor
  · rw [hg, hn, hw.grid_size]
  · rw [hc, hw.levels_length]
  · rw [hc]
    exact hw.nlev_pos
  · intro q s hs
    rw [hn]
    rcases h.mem_intake hs with hs | ⟨hp, -⟩
    · exact hw.sources q s hs
    · exact hp

theorem Sound.history {w₀ : World α} {deeds : List (Deed α)} {ids : List ChannelId}
    (h₀ : w₀.Sound) (h : History w₀ deeds ids w) : w.Sound :=
  Kept.history (I := fun _ _ v => v.Sound) (fun _ _ _ _ _ _ hv hs => hv.step hs) h h₀

theorem Sound.perform (hw : w.Sound) {d : Deed α} (hd : d.perform w = .ok w') : w'.Sound :=
  hw.history (History.start.act d hd)

/-- All neighbours of a place on the grid are on the grid. -/
theorem Sound.neighbor_lt (hw : w.Sound) {pos : Nat} (hp : pos < w.size) (dir : Direction) :
    w.neighbor pos dir < w.size := by
  have hg := hw.grid_size
  rw [neighbor, ← hg]
  exact w.grid.neighbor_lt pos dir (by omega)

/-- No deed on the grid of a sound world fails. -/
theorem Sound.exists_perform (hw : w.Sound) {d : Deed α} (hd : d.pos < w.size) :
    ∃ w', d.perform w = .ok w' := by
  rw [Deed.perform, if_pos hd]
  cases d with
  | settle pos tick =>
    cases hin : (w.tile pos).intake with
    | nil => exact ⟨w, by rw [Deed.act, settleSire_nil hin]; rfl⟩
    | cons sire losers =>
      have hs := settleSire_eq hin (fun s hs => hw.sources pos s (hin ▸ hs)) tick
      exact ⟨_, by rw [Deed.act, hs]; rfl⟩
  | refund pos => exact ⟨_, by rw [Deed.act, refundIntake_eq (hw.sources pos)]; rfl⟩
  | _ => exact ⟨_, rfl⟩

end World

end Vivarium
