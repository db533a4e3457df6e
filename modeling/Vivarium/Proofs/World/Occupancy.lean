import Vivarium.Proofs.World.Bystanders
/-!
# Occupancies

What a tile looks like after an occupant has come to it or gone from it, and what that changes on the
other tiles: a settled sire is entered with its parent, and endowments go to stockpiles.
-/
namespace Vivarium

variable {α : Type} [Scalar α] {w : World α} {pos : Nat}

/-- The occupant is gone, and the tile is ready for the next. -/
structure Tile.Emptied (t u : Tile α) : Prop where
  live : u.live = false
  mark : u.mark = .unmarked
  controls : u.controls = t.controls.map (·.reset)
  inboxes : u.inboxes = .replicate []
  intake : u.intake = t.intake

namespace Family

@[simp] theorem hasChild_settled (parent : Option Nat) (birth : Tick)
    (prevChan : Option ChannelId) (p : Nat) : (settled parent birth prevChan).hasChild p = false :=
  rfl

@[simp] theorem hasChild_addChild (f : Family) (p q : Nat) :
    (f.addChild p).hasChild q = (q == p || f.hasChild q) := Positions.contains_insert _ _ _

end Family

namespace Tile

theorem emptied_kill (t : Tile α) : t.Emptied t.kill := ⟨rfl, rfl, rfl, rfl, rfl⟩

theorem emptied_forget (t : Tile α) : t.Emptied t.kill.forget := ⟨rfl, rfl, rfl, rfl, rfl⟩

end Tile

namespace World

/-! ## Sires turned away -/

/-- Turning sires away touches intakes and stockpiles only. -/
theorem exists_tile_turnedAway (w : World α) (p : Nat) (sires : List (Sire α FrameOp)) (q : Nat) :
    ∃ stockpile, (sires.foldl credit (w.clearIntake p)).tile q =
      { w.tile q with stockpile, intake := if q = p then [] else (w.tile q).intake } := by
  refine List.foldlRecOn sires credit (motive := fun v => ∃ stockpile, v.tile q =
    { w.tile q with stockpile, intake := if q = p then [] else (w.tile q).intake }) ?_ ?_
  · have hin := w.intake_clearIntake p q
    rw [← hin, clearIntake, tile_modify]
    split
    · exact ⟨_, rfl⟩
    · exact ⟨_, rfl⟩
  · rintro v ⟨stockpile, hv⟩ sire -
    rw [credit, modifyStockpile, tile_modify, hv]
    split
    · exact ⟨_, rfl⟩
    · exact ⟨_, rfl⟩

/-- A change that leaves a tile as it is leaves the world as it is. -/
theorem modify_eq_self {change : Tile α → Tile α} (h : change (w.tile pos) = w.tile pos) :
    w.modify pos change = w := by
  have htiles : w.tiles.modify pos change = w.tiles := by
    refine Array.ext (Array.size_modify ..) fun i hi hi' => ?_
    rw [Array.getElem_modify]
    by_cases hpos : pos = i
    · subst hpos
      rw [tile, dif_pos hi'] at h
      rw [if_pos rfl, h]
    · rw [if_neg hpos]
  rw [modify, htiles]

/-! ## Coming -/

theorem tile_found (hp : pos < w.size) (tick : Tick) (q : Nat) :
    (w.found pos tick).tile q =
      if q = pos then
        { w.tile q with
          channel := (Channel.founder w.config.levels w.rng).1
          family := .settled none tick none }.occupy
      else w.tile q := by
  change (World.modify { w with rng := _ } pos _).tile q = _
  rw [tile_modify]
  by_cases hq : q = pos
  · rw [if_pos ⟨hq, hp⟩, if_pos hq]
    rfl
  · rw [if_neg fun h => hq h.1, if_neg hq]
    rfl

theorem tile_modifyFamily (w : World α) {p : Nat} (hp : p < w.size) (f : Family → Family) (q : Nat) :
    (w.modifyFamily p f).tile q =
      { w.tile q with family := if q = p then f (w.tile q).family else (w.tile q).family } := by
  rw [modifyFamily, tile_modify]
  by_cases hq : q = p
  · rw [if_pos ⟨hq, hp⟩, if_pos hq]
  · rw [if_neg fun h => hq h.1, if_neg hq]

variable {sire : Sire α FrameOp}

/-- The tile that a sire has settled on. -/
theorem tile_install_same (hp : pos < w.size) (hs : sire.record.sourcePos < w.size) (tick : Tick) :
    (w.install pos tick sire).tile pos =
      { w.tile pos with
        channel := (Channel.ofSire w.config.levels sire.record w.rng).1
        family :=
          if pos = sire.record.sourcePos then
            (Family.settled (some sire.record.sourcePos) tick sire.record.prevChan).addChild pos
          else .settled (some sire.record.sourcePos) tick sire.record.prevChan
        stockpile := (w.tile pos).stockpile.contribute sire.endowment
          (Direction.ofNat sire.record.dir).opposite }.occupy := by
  -- The tile is entered before its parent notes it, and both may be the same tile.
  have hentered : ∀ f : Tile α → Tile α, (World.modify { w with
      rng := (Channel.ofSire w.config.levels sire.record w.rng).2 } pos f).tile pos =
        f (w.tile pos) := fun f => tile_modify_same { w with rng := _ } f hp
  have hsize : ∀ f : Tile α → Tile α, (World.modify { w with
      rng := (Channel.ofSire w.config.levels sire.record w.rng).2 } pos f).size = w.size :=
    fun f => size_modify _ _ _
  rw [install, tile_modify_same, tile_modifyFamily, hentered]
  · rw [hsize]
    exact hs
  · rw [modifyFamily, size_modify, hsize]
    exact hp

/-- Elsewhere only the parent takes note of the offspring. -/
theorem tile_install_other (hs : sire.record.sourcePos < w.size) (tick : Tick) {q : Nat}
    (hq : q ≠ pos) :
    (w.install pos tick sire).tile q =
      { w.tile q with
        family := if q = sire.record.sourcePos then (w.tile q).family.addChild pos
          else (w.tile q).family } := by
  have hentered : ∀ f : Tile α → Tile α, (World.modify { w with
      rng := (Channel.ofSire w.config.levels sire.record w.rng).2 } pos f).tile q =
        w.tile q := fun f => tile_modify_other { w with rng := _ } f hq
  rw [install, tile_modify_other _ _ hq, tile_modifyFamily, hentered]
  rw [size_modify]
  exact hs

/-! ## Going -/

/-- A mark that is carried out empties the tile. -/
theorem applyApoptosis_cases (w : World α) (pos : Nat) :
    ((w.tile pos).mark = .unmarked ∧ w.applyApoptosis pos = (.unmarked, w)) ∨
      ((w.tile pos).mark ≠ .unmarked ∧ ∃ change, (∀ t : Tile α, t.Emptied (change t)) ∧
        w.applyApoptosis pos = ((w.tile pos).mark, w.modify pos change)) := by
  unfold applyApoptosis
  cases (w.tile pos).mark with
  | unmarked => exact .inl ⟨rfl, rfl⟩
  | partialDeath => exact .inr ⟨by decide, _, Tile.emptied_kill, rfl⟩
  | completeDeath => exact .inr ⟨by decide, _, Tile.emptied_forget, rfl⟩

end World

end Vivarium
