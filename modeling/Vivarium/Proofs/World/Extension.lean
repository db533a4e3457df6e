import Vivarium.Proofs.Frame.Twins
import Vivarium.Proofs.World.Sound
/-!
# Beyond the tiles

A world keeps an array of tiles. Whoever looked or wrote beyond its end would notice what lies there; so
put more tiles behind the last one, any number of any kind. No deed on the grid of a sound world does
anything else than before, and none of the tiles behind the last one changes.
-/
namespace Vivarium

variable {α : Type} [Scalar α] {w : World α} {extra : Array (Tile α)}

namespace World

def extend (extra : Array (Tile α)) (w : World α) : World α := { w with tiles := w.tiles ++ extra }

omit [Scalar α] in
theorem size_extend (extra : Array (Tile α)) (w : World α) :
    (w.extend extra).size = w.size + extra.size := Array.size_append

omit [Scalar α] in
theorem lt_extend {p : Nat} (h : p < w.size) : p < (w.extend extra).size := by
  rw [size_extend]
  exact Nat.lt_add_right _ h

theorem tile_extend {p : Nat} (h : p < w.size) : (w.extend extra).tile p = w.tile p := by
  have hp : p < (w.tiles ++ extra).size := lt_extend h
  have hp' : p < w.tiles.size := h
  rw [tile, tile, dif_pos hp', extend, dif_pos hp, Array.getElem_append_left hp']

omit [Scalar α] in
theorem modify_extend {p : Nat} (h : p < w.size) (f : Tile α → Tile α) :
    (w.extend extra).modify p f = (w.modify p f).extend extra := by
  have htiles : (w.tiles ++ extra).modify p f = w.tiles.modify p f ++ extra := by
    refine Array.ext (by simp only [Array.size_modify, Array.size_append]) fun i hi hi' => ?_
    by_cases hin : i < w.tiles.size
    · rw [Array.getElem_modify, Array.getElem_append_left hin,
        Array.getElem_append_left (by rwa [Array.size_modify]), Array.getElem_modify]
    · have hne : p ≠ i := fun e => hin (e ▸ h)
      rw [Array.getElem_modify, if_neg hne, Array.getElem_append_right (Nat.le_of_not_lt hin),
        Array.getElem_append_right (by rw [Array.size_modify]; exact Nat.le_of_not_lt hin)]
      simp only [Array.size_modify]
  rw [modify, modify, extend, htiles, extend]

def Holds (pos : Nat) (w : World α) : Prop := w.grid.size = w.size ∧ pos < w.size

theorem Sound.holds (hw : w.Sound) {pos : Nat} (hp : pos < w.size) : w.Holds pos :=
  ⟨hw.grid_size, hp⟩

/-- A frame on the grid does not notice tiles behind the last one. -/
theorem unnoticed_extend (extra : Array (Tile α)) (pos : Nat) :
    Unnoticed pos (Holds pos) (extend extra) := by
  have near {w : World α} {p : Nat} (hw : w.Holds pos) (hp : w.Near pos p) : p < w.size := by
    obtain ⟨hg, hpos⟩ := hw
    rcases hp with rfl | ⟨d, rfl⟩
    · exact hpos
    · rw [World.neighbor, ← hg]
      exact w.grid.neighbor_lt pos d (by omega)
  constructor
  · exact fun w => rfl
  · exact fun w => rfl
  · exact fun w => rfl
  · exact fun w p hw hp => tile_extend (near hw hp)
  · exact fun w p f hw hp => modify_extend (near hw hp) f
  · intro w p f hw _
    rw [Holds, size_modify]
    exact hw

end World

/-! ## Frames -/

omit [Scalar α] in
theorem Machine.shift_zero {X : Type} (m : Machine α X) : m.shift 0 = m := by
  have hentries : m.board.matcher.entries.map (·.shift 0) = m.board.matcher.entries :=
    List.map_id' _
  rw [Machine.shift, Board.shift, Registry.shift, hentries]
  rfl

namespace Frame

variable {f g : Frame α}

omit [Scalar α] in
theorem Twin.refl (f : Frame α) : f.Twin 0 Eq f := ⟨rfl, rfl, rfl, f.cpu.shift_zero.symm, rfl⟩

omit [Scalar α] in
theorem Twin.eq (h : f.Twin 0 Eq g) : g = f := by
  obtain ⟨hpos, hfacing, hdir, hcpu, hmembrane⟩ := h
  rw [Machine.shift_zero] at hcpu
  cases f
  cases g
  simp only at hpos hfacing hdir hcpu hmembrane
  rw [hpos, hfacing, hdir, hcpu, hmembrane]

/-- A pass does not see the additional tiles. -/
theorem execute_extend (extra : Array (Tile α)) (hw : w.Holds f.pos) :
    f.execute (w.extend extra) = ((f.execute w).1, (f.execute w).2.extend extra) ∧
      (f.execute w).2.Holds f.pos := by
  obtain ⟨htwin, hkept, hworld⟩ :=
    (Twin.refl f).execute Membrane.twinning_eq (World.unnoticed_extend extra f.pos) hw
  exact ⟨Prod.ext htwin.eq hworld, hkept⟩

theorem queueMessages_extend (extra : Array (Tile α)) (hw : w.Holds f.pos) :
    f.queueMessages (w.extend extra) =
      ((f.queueMessages w).1, (f.queueMessages w).2.extend extra) ∧
      (f.queueMessages w).2.Holds f.pos := by
  obtain ⟨htwin, hkept, hworld⟩ :=
    (Twin.refl f).queueMessages Membrane.twinning_eq (World.unnoticed_extend extra f.pos) hw
  exact ⟨Prod.ext htwin.eq hworld, hkept⟩

theorem advanceEnvironment_extend (extra : Array (Tile α)) (hw : w.Holds f.pos) (tick : Tick) :
    f.advanceEnvironment (w.extend extra) tick =
      ((f.advanceEnvironment w tick).1, (f.advanceEnvironment w tick).2.1,
        (f.advanceEnvironment w tick).2.2.extend extra) ∧
      (f.advanceEnvironment w tick).2.2.Holds f.pos := by
  obtain ⟨htags, htwin, hkept, hworld⟩ := (Twin.refl f).advanceEnvironment Membrane.twinning_eq
    (World.unnoticed_extend extra f.pos) hw tick
  exact ⟨Prod.ext htags (Prod.ext htwin.eq hworld), hkept⟩

theorem reset_extend (extra : Array (Tile α)) (hw : w.Holds f.pos) :
    f.reset (w.extend extra) = ((f.reset w).1, (f.reset w).2.extend extra) ∧
      (f.reset w).2.Holds f.pos := by
  have hφ := World.unnoticed_extend extra f.pos
  obtain ⟨hcontrols, hw'⟩ := hφ.faithful_modifyControls hw f.facing (·.reset)
  obtain ⟨hinbox, hw''⟩ := hφ.faithful_modifyInbox hw' f.facing fun _ => []
  refine ⟨Prod.ext rfl ?_, hw''⟩
  simp only [Frame.reset, hcontrols]
  exact hinbox

end Frame

/-! ## Deeds -/

namespace World

variable {pos : Nat} {sire : Sire α FrameOp}

theorem credits_extend (sires : List (Sire α FrameOp))
    (h : ∀ s ∈ sires, s.record.sourcePos < w.size) :
    sires.foldl credit (w.extend extra) = (sires.foldl credit w).extend extra := by
  induction sires generalizing w with
  | nil => rfl
  | cons s rest ih =>
    have hs : (w.extend extra).credit s = (w.credit s).extend extra :=
      modify_extend (h s List.mem_cons_self) _
    rw [List.foldl_cons, List.foldl_cons, hs]
    refine ih fun s' hs' => ?_
    rw [size_credit]
    exact h s' (List.mem_cons_of_mem s hs')

theorem install_extend (hp : pos < w.size) (hs : sire.record.sourcePos < w.size) (tick : Tick) :
    (w.extend extra).install pos tick sire = (w.install pos tick sire).extend extra := by
  have hthree (v : World α) (hv : v.size = w.size) (f g h : Tile α → Tile α) :
      (((v.extend extra).modify pos f).modify sire.record.sourcePos g).modify pos h =
        (((v.modify pos f).modify sire.record.sourcePos g).modify pos h).extend extra := by
    rw [modify_extend (hv.symm ▸ hp), modify_extend, modify_extend]
    · rw [size_modify, size_modify, hv]
      exact hp
    · rw [size_modify, hv]
      exact hs
  exact hthree { w with rng := (Channel.ofSire w.config.levels sire.record w.rng).2 } rfl _ _ _

theorem found_extend (hp : pos < w.size) (tick : Tick) :
    (w.extend extra).found pos tick = (w.found pos tick).extend extra :=
  modify_extend (w := { w with rng := (Channel.founder w.config.levels w.rng).2 }) hp _

/-- A settlement does not see them. -/
theorem settleSire_extend (hw : w.Sound) (hp : pos < w.size) (tick : Tick) :
    (w.extend extra).settleSire pos tick =
      (w.settleSire pos tick).map fun r => (r.1, r.2.extend extra) := by
  have hin : ((w.extend extra).tile pos).intake = (w.tile pos).intake := by rw [tile_extend hp]
  have hsources := hw.sources pos
  cases h : (w.tile pos).intake with
  | nil =>
    rw [settleSire_nil h, settleSire_nil (hin.trans h)]
    rfl
  | cons sire losers =>
    rw [h] at hsources
    have hlosers := fun s hs => hsources s (List.mem_cons_of_mem sire hs)
    have hclear : (w.extend extra).clearIntake pos = (w.clearIntake pos).extend extra :=
      modify_extend hp _
    have hsize := (stays_turnedAway w pos losers).size
    rw [settleSire_eq h hsources, settleSire_eq (hin.trans h) fun s hs => lt_extend (hsources s hs),
      hclear, credits_extend losers fun s hs => by
        rw [clearIntake, size_modify]
        exact hlosers s hs,
      install_extend (hsize.symm ▸ hp) (hsize.symm ▸ hsources sire List.mem_cons_self)]
    rfl

/-- Neither does a refund. -/
theorem refundIntake_extend (hw : w.Sound) (hp : pos < w.size) :
    (w.extend extra).refundIntake pos =
      (w.refundIntake pos).map fun r => (r.1, r.2.extend extra) := by
  have hin : ((w.extend extra).tile pos).intake = (w.tile pos).intake := by rw [tile_extend hp]
  have hclear : (w.extend extra).clearIntake pos = (w.clearIntake pos).extend extra :=
    modify_extend hp _
  rw [refundIntake_eq (hw.sources pos), refundIntake_eq fun s hs =>
    lt_extend (hw.sources pos s (hin ▸ hs)), hin, hclear, credits_extend _ fun s hs => by
      rw [clearIntake, size_modify]
      exact hw.sources pos s hs]
  rfl

theorem applyApoptosis_extend (hp : pos < w.size) :
    (w.extend extra).applyApoptosis pos =
      ((w.applyApoptosis pos).1, (w.applyApoptosis pos).2.extend extra) := by
  unfold applyApoptosis
  rw [tile_extend hp]
  cases (w.tile pos).mark with
  | unmarked => rfl
  | partialDeath => exact congrArg (Prod.mk _) (modify_extend hp _)
  | completeDeath => exact congrArg (Prod.mk _) (modify_extend hp _)

/-- On a grid that has tiles for all its places, what lies behind the last of them is nothing to a
deed. -/
theorem Sound.perform_extend (hw : w.Sound) (d : Deed α) (hd : d.pos < w.size) :
    d.perform (w.extend extra) = (d.perform w).map (·.extend extra) := by
  have hholds := hw.holds hd
  rw [Deed.perform, Deed.perform, if_pos hd, if_pos (lt_extend hd)]
  cases d with
  | found pos tick => exact congrArg Except.ok (found_extend hd tick)
  | settle pos tick =>
    have hp : pos < w.size := hd
    rw [Deed.act, settleSire_extend hw hp, Deed.act]
    cases w.settleSire pos tick with
    | error e => rfl
    | ok r => rfl
  | refund pos =>
    have hp : pos < w.size := hd
    rw [Deed.act, refundIntake_extend hw hp, Deed.act]
    cases w.refundIntake pos with
    | error e => rfl
    | ok r => rfl
  | reproduce pos facing relative level program =>
    have hφ := unnoticed_extend extra pos
    exact congrArg Except.ok (hφ.tryReproduce hholds facing relative level program).2.commutes
  | mark pos m => exact congrArg Except.ok (modify_extend hd _)
  | die pos => exact congrArg (fun r => Except.ok r.2) (applyApoptosis_extend hd)
  | vacate pos => exact congrArg Except.ok (modify_extend hd _)
  | environment f tick =>
    exact congrArg (fun r => Except.ok r.2.2) (Frame.advanceEnvironment_extend extra hholds tick).1
  | messages f => exact congrArg (fun r => Except.ok r.2) (Frame.queueMessages_extend extra hholds).1
  | execute f =>
    simp only [Deed.act, Frame.stepOnce]
    by_cases hp : f.hasProgram = true
    · simp only [hp, if_true]
      exact congrArg (fun r => Except.ok r.2) (Frame.execute_extend extra hholds).1
    · simp only [hp, Bool.false_eq_true, if_false]
      rfl
  | reset f => exact congrArg (fun r => Except.ok r.2) (Frame.reset_extend extra hholds).1
  | age pos ticks => exact congrArg Except.ok (modify_extend hd _)
  | ageAt pos level delta => exact congrArg Except.ok (modify_extend hd _)
  | grow pos amount => exact congrArg Except.ok (modify_extend hd _)

end World

end Vivarium
