import Vivarium.Frame.Environment
import Vivarium.Proofs.World.Offers
/-!
# Bystanders

Frames reach tiles other than their own, but nothing they do begins or ends a life: on every tile the
occupant, its identifiers and its family stay what they are. And as long as a frame acts from a tile
that lives, whatever a dead tile keeps ready for its next occupant stays as it is.
-/
namespace Vivarium

variable {α : Type} [Scalar α]

/-- The tiles have the same occupant, or none. -/
structure Tile.Abides (t u : Tile α) : Prop where
  live : u.live = t.live
  ids : u.channel.ids = t.channel.ids
  family : u.family = t.family
  paused : ∀ d, (u.controls.get d).paused.length = (t.controls.get d).paused.length

/-- The tiles await an occupant in the same way. -/
structure Tile.Rests (t u : Tile α) : Prop where
  mark : u.mark = t.mark
  controls : u.controls = t.controls
  inboxes : u.inboxes = t.inboxes

namespace Tile

omit [Scalar α] in
theorem Abides.refl (t : Tile α) : t.Abides t := ⟨rfl, rfl, rfl, fun _ => rfl⟩

omit [Scalar α] in
theorem Abides.trans {t u v : Tile α} (h : t.Abides u) (h' : u.Abides v) : t.Abides v :=
  ⟨h'.live.trans h.live, h'.ids.trans h.ids, h'.family.trans h.family,
    fun d => (h'.paused d).trans (h.paused d)⟩

omit [Scalar α] in
theorem Rests.refl (t : Tile α) : t.Rests t := ⟨rfl, rfl, rfl⟩

omit [Scalar α] in
theorem Rests.trans {t u v : Tile α} (h : t.Rests u) (h' : u.Rests v) : t.Rests v :=
  ⟨h'.mark.trans h.mark, h'.controls.trans h.controls, h'.inboxes.trans h.inboxes⟩

omit [Scalar α] in
/-- Controls may change as long as they have a flag for every level. -/
theorem abides_controls (t : Tile α) (dir : Direction) {change : Controls α → Controls α}
    (h : ∀ c, (change c).paused.length = c.paused.length) :
    t.Abides { t with controls := t.controls.modify dir change } := by
  refine ⟨rfl, rfl, rfl, fun d => ?_⟩
  by_cases hd : d = dir
  · rw [hd, PerFacing.get_modify_same, h]
  · rw [PerFacing.get_modify_other _ _ hd]

end Tile

namespace World

variable {w v w' : World α} {pos : Nat}

/-- Every tile keeps its occupant. If the tile that acts lives, nothing changes on the dead ones for
the next occupant. -/
structure Respects (pos : Nat) (w v : World α) : Prop where
  stays : w.Stays v
  abides : ∀ q, (w.tile q).Abides (v.tile q)
  rests : (w.tile pos).live = true → ∀ q, (w.tile q).live = false → (w.tile q).Rests (v.tile q)

theorem Respects.refl (w : World α) : Respects pos w w :=
  ⟨.refl w, fun _ => .refl _, fun _ _ _ => .refl _⟩

theorem Respects.trans (h : Respects pos w v) (h' : Respects pos v w') : Respects pos w w' := by
  refine ⟨h.stays.trans h'.stays, fun q => (h.abides q).trans (h'.abides q), fun hl q hq => ?_⟩
  have hrest := h'.rests ((h.abides pos).live.trans hl) q ((h.abides q).live.trans hq)
  exact (h.rests hl q hq).trans hrest

/-- A change that concerns neither the occupant nor the next. -/
theorem respects_modify (w : World α) (p : Nat) {change : Tile α → Tile α}
    (h : ∀ t : Tile α, t.Abides (change t)) (hr : ∀ t : Tile α, t.Rests (change t)) :
    Respects pos w (w.modify p change) := by
  refine ⟨stays_modify w p change, fun q => ?_, fun _ q _ => ?_⟩
  · rw [tile_modify]
    split
    · exact h _
    · exact .refl _
  · rw [tile_modify]
    split
    · exact hr _
    · exact .refl _

/-- A change to a tile that lives if the acting one does. -/
theorem respects_modify_live {p : Nat}
    (hl : (w.tile pos).live = true → (w.tile p).live = true) {change : Tile α → Tile α}
    (h : ∀ t : Tile α, t.Abides (change t)) : Respects pos w (w.modify p change) := by
  refine ⟨stays_modify w p change, fun q => ?_, fun hpos q hq => ?_⟩
  · rw [tile_modify]
    split
    · exact h _
    · exact .refl _
  · have hne : q ≠ p := by
      rintro rfl
      exact Bool.noConfusion (hq.symm.trans (hl hpos))
    rw [tile_modify_other _ _ hne]
    exact .refl _

theorem respects_modifyStockpile (w : World α) (p : Nat) (f : Stockpile α → Stockpile α) :
    Respects pos w (w.modifyStockpile p f) :=
  w.respects_modify p (fun _ => ⟨rfl, rfl, rfl, fun _ => rfl⟩) fun _ => ⟨rfl, rfl, rfl⟩

theorem respects_sendResource (w : World α) (pos : Nat) (dir : Direction) (fraction : α) :
    Respects pos w (w.sendResource pos dir fraction) := by
  by_cases hl : (w.tile (w.neighbor pos dir)).live
  · simp only [sendResource, hl, if_true]
    exact (respects_modifyStockpile _ _ _).trans (respects_modifyStockpile _ _ _)
  · simp only [sendResource, hl]
    exact .refl w

theorem respects_tryReproduce (w : World α) (pos : Nat) (facing : Direction) (relative : α)
    (level : Nat) (program : Program FrameOp) :
    Respects pos w (w.tryReproduce pos facing relative level program).2 := by
  unfold tryReproduce
  cases w.reproductionLevel? pos facing level with
  | none => exact .refl w
  | some used =>
    refine (respects_modifyStockpile w pos _).trans (respects_modify _ _ ?_ ?_)
    · exact fun _ => ⟨rfl, rfl, rfl, fun _ => rfl⟩
    · exact fun _ => ⟨rfl, rfl, rfl⟩

/-- No instruction moves an occupant or disturbs a dead tile. -/
theorem Effect.respects {facing : Direction} {program : Program FrameOp}
    (h : Effect pos facing program w v) : Respects pos w v := by
  cases h with
  | control dir change hc => exact respects_modify_live id fun t => t.abides_controls dir fun c => (hc c).paused
  | mailOut dir m hn =>
    exact respects_modify_live (fun _ => hn) fun _ => ⟨rfl, rfl, rfl, fun _ => rfl⟩
  | send dir fraction => exact respects_sendResource w pos dir fraction
  | reproduce relative level => exact respects_tryReproduce w pos facing relative level _
  | _ => exact respects_modify_live id fun _ => ⟨rfl, rfl, rfl, fun _ => rfl⟩

end World

/-! ## Frames -/

namespace Frame

theorem respects_execute (f : Frame α) (w : World α) : World.Respects f.pos w (f.execute w).2 :=
  f.execute_induction (I := World.Respects f.pos w) (fun _ _ he h => h.trans he.respects) w
    (.refl w)

theorem respects_advanceEnvironment (f : Frame α) (w : World α) (tick : Tick) :
    World.Respects f.pos w (f.advanceEnvironment w tick).2.2 := by
  unfold advanceEnvironment
  split
  · refine (World.respects_modifyStockpile w f.pos _).trans (World.respects_modify_live id ?_)
    exact fun t => t.abides_controls f.facing fun _ => List.length_map _
  · exact .refl w

theorem respects_queueMessages (f : Frame α) (w : World α) :
    World.Respects f.pos w (f.queueMessages w).2 :=
  World.respects_modify_live id fun _ => ⟨rfl, rfl, rfl, fun _ => rfl⟩

theorem respects_reset (f : Frame α) (w : World α) : World.Respects f.pos w (f.reset w).2 := by
  refine World.Respects.trans (World.respects_modify_live id ?_) (World.respects_modify_live id ?_)
  · exact fun t => t.abides_controls f.facing fun _ => List.length_map _
  · exact fun _ => ⟨rfl, rfl, rfl, fun _ => rfl⟩

theorem intake_advanceEnvironment (f : Frame α) (w : World α) (tick : Tick) (q : Nat) :
    ((f.advanceEnvironment w tick).2.2.tile q).intake = (w.tile q).intake := by
  unfold advanceEnvironment
  split
  · rw [← World.intake_modifyStockpile w f.pos q (·.resetHarvests w.config.nlev)]
    exact World.intake_modify _ _ _ fun _ => rfl
  · rfl

theorem intake_queueMessages (f : Frame α) (w : World α) (q : Nat) :
    ((f.queueMessages w).2.tile q).intake = (w.tile q).intake :=
  World.intake_modify _ _ _ fun _ => rfl

theorem intake_reset (f : Frame α) (w : World α) (q : Nat) :
    ((f.reset w).2.tile q).intake = (w.tile q).intake := by
  have hc : ((w.modifyControls f.pos f.facing (·.reset)).tile q).intake = (w.tile q).intake :=
    World.intake_modify _ _ _ fun _ => rfl
  rw [← hc]
  exact World.intake_modify _ _ _ fun _ => rfl

end Frame

end Vivarium
