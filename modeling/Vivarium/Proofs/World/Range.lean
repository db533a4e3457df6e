import Vivarium.Proofs.Trigger
import Vivarium.Proofs.World.Extension
import Vivarium.Proofs.World.Shape
/-!
# Ranges

A world with a valid configuration never looks for a tile, a trigger or a level that is not there, and
never divides by zero. For levels and triggers this is a matter of lengths. For tiles it is stronger:
whatever is done on the grid is done as it would be if other tiles lay behind the last one.
-/
namespace Vivarium

variable {α : Type} [Scalar α]

/-! ## Grids -/

namespace Grid

variable {g : Grid} {pos : Nat}

/-- A place on a grid whose sides are not too long has the coordinates it should have, and the sums
that lead from it to its neighbours fit into a word. -/
theorem coords_exact (hw : g.width.toNat ≤ 2 ^ 31) (hh : g.height.toNat ≤ 2 ^ 31)
    (hp : pos < g.size) :
    (g.coords pos).1.toNat = pos % g.width.toNat ∧ (g.coords pos).2.toNat = pos / g.width.toNat ∧
      (g.coords pos).1.toNat + g.width.toNat < 2 ^ 32 ∧
      (g.coords pos).2.toNat + g.height.toNat < 2 ^ 32 := by
  have hwidth : 0 < g.width.toNat := Nat.pos_of_ne_zero fun e => by
    rw [size, e, Nat.zero_mul] at hp
    exact Nat.not_lt_zero _ hp
  have hcolumn : pos % g.width.toNat < g.width.toNat := Nat.mod_lt _ hwidth
  have hrow : pos / g.width.toNat < g.height.toNat := Nat.div_lt_of_lt_mul hp
  have hx : (g.coords pos).1.toNat = pos % g.width.toNat :=
    UInt32.toNat_ofNat_of_lt' (by rw [UInt32.size]; omega)
  have hy : (g.coords pos).2.toNat = pos / g.width.toNat :=
    UInt32.toNat_ofNat_of_lt' (by rw [UInt32.size]; omega)
  refine ⟨hx, hy, ?_, ?_⟩
  · rw [hx]
    omega
  · rw [hy]
    omega

/-- All places of such a grid can be counted in a word. -/
theorem size_le (hw : g.width.toNat ≤ 2 ^ 31) (hh : g.height.toNat ≤ 2 ^ 31) : g.size ≤ 2 ^ 62 :=
  calc g.width.toNat * g.height.toNat
    _ ≤ 2 ^ 31 * 2 ^ 31 := Nat.mul_le_mul hw hh
    _ = 2 ^ 62 := (Nat.pow_add 2 31 31).symm

end Grid

/-! ## Configurations -/

namespace Config

variable {config : Config α}

/-- A valid configuration can be built. -/
theorem exists_new (h : config.validate = .ok ()) : ∃ w, World.new config = .ok w := by
  have hv := validate_eq_ok_iff.1 h
  have hgrid : Grid.new config.gridWidth config.gridHeight =
      .ok ⟨config.gridWidth, config.gridHeight⟩ :=
    if_neg (not_or.2 ⟨hv.width, hv.height⟩)
  rw [World.new, h, hgrid]
  exact ⟨_, rfl⟩

end Config

/-! ## Worlds -/

namespace World

variable {config : Config α} {w v : World α}

/-- Everything that is looked up in a world is there, and nothing is divided by zero. -/
structure InRange (config : Config α) (w : World α) : Prop where
  size_eq : w.size = config.cellCount
  /-- The places can be counted in a word. -/
  size_le : w.size ≤ 2 ^ 62
  sides : w.grid.width ≠ 0 ∧ w.grid.height ≠ 0
  period : w.config.envTrigFreq ≠ 0
  coords : ∀ pos < w.size,
    (w.grid.coords pos).1.toNat = pos % w.grid.width.toNat ∧
      (w.grid.coords pos).2.toNat = pos / w.grid.width.toNat ∧
      (w.grid.coords pos).1.toNat + w.grid.width.toNat < 2 ^ 32 ∧
      (w.grid.coords pos).2.toNat + w.grid.height.toNat < 2 ^ 32
  neighbor_lt : ∀ pos < w.size, ∀ d, w.neighbor pos d < w.size
  source_lt : ∀ pos, ∀ sire ∈ (w.tile pos).intake, sire.record.sourcePos < w.size
  slot_lt : ∀ t ∈ Trigger.all w.config.nlev, t.slot w.triggerTags.nlev < Trigger.count config.nlev
  /-- Whatever the outcome of a trigger, there is a tag for it. -/
  tags : ∀ t ∈ Trigger.all w.config.nlev,
    ∃ pro anti, w.triggerTags.pro? t = some pro ∧ w.triggerTags.anti? t = some anti
  nlev_pos : 0 < w.config.nlev
  tiles : ∀ pos, (w.tile pos).Shaped config.nlev

/-- On a grid with sides up to `2 ^ 31` a world never looks beyond its tiles. -/
theorem Run.inRange (h : Run config w) (hw : config.gridWidth.toNat ≤ 2 ^ 31)
    (hh : config.gridHeight.toNat ≤ 2 ^ 31) : w.InRange config := by
  have hvalid := Config.validate_eq_ok_iff.1 h.validate
  have hgrid := h.grid_eq
  have hsound := h.sound
  have hshaped := h.shaped
  have hsize : w.size = (⟨config.gridWidth, config.gridHeight⟩ : Grid).size := by
    rw [← hsound.grid_size, hgrid]
  constructor
  · exact hsize
  · exact hsize ▸ Grid.size_le hw hh
  · rw [hgrid]
    exact ⟨hvalid.width, hvalid.height⟩
  · rw [hshaped.config_eq]
    exact hvalid.period
  · intro pos hp
    rw [hgrid]
    exact Grid.coords_exact hw hh (hsize ▸ hp)
  · exact fun pos hp d => hsound.neighbor_lt hp d
  · exact hsound.sources
  · intro t ht
    rw [hshaped.config_eq] at ht
    rw [hshaped.triggerTags_eq]
    exact Trigger.slot_lt ht
  · intro t ht
    rw [hshaped.config_eq] at ht
    rw [hshaped.triggerTags_eq]
    exact TriggerTags.exists_both ht
  · exact hsound.nlev_pos
  · exact hshaped.tiles

/-- Whatever is done at a place of the world goes well, and nobody looks or writes behind the last
tile. -/
structure Enclosed (w : World α) : Prop where
  deed : ∀ d : Deed α, d.pos < w.size →
    ∃ v, d.perform w = .ok v ∧ ∀ extra, d.perform (w.extend extra) = .ok (v.extend extra)
  edit : ∀ (e : Tile.Edit α) (pos : Nat), pos < w.size → ∀ extra,
    (w.extend extra).modify pos e.apply = (w.modify pos e.apply).extend extra
  environment : ∀ (f : Frame α) (tick : Tick), f.pos < w.size → ∀ extra,
    f.advanceEnvironment (w.extend extra) tick =
      ((f.advanceEnvironment w tick).1, (f.advanceEnvironment w tick).2.1,
        (f.advanceEnvironment w tick).2.2.extend extra)
  messages : ∀ f : Frame α, f.pos < w.size → ∀ extra,
    f.queueMessages (w.extend extra) = ((f.queueMessages w).1, (f.queueMessages w).2.extend extra)
  execution : ∀ f : Frame α, f.pos < w.size → ∀ extra,
    f.execute (w.extend extra) = ((f.execute w).1, (f.execute w).2.extend extra)

theorem Sound.enclosed (hw : w.Sound) : w.Enclosed where
  deed d hd := by
    obtain ⟨v, hv⟩ := hw.exists_perform hd
    refine ⟨v, hv, fun extra => ?_⟩
    rw [hw.perform_extend d hd, hv]
    rfl
  edit _ _ hp _ := modify_extend hp _
  environment _ tick hf extra := (Frame.advanceEnvironment_extend extra (hw.holds hf) tick).1
  messages _ hf extra := (Frame.queueMessages_extend extra (hw.holds hf)).1
  execution _ hf extra := (Frame.execute_extend extra (hw.holds hf)).1

end World

end Vivarium
