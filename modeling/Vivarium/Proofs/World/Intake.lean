import Vivarium.Proofs.World.History
/-!
# Taking sires in and turning them away

The two operations on an intake fail only when a sire names a parent outside the grid. Otherwise
they credit the losers one by one, and the winner is installed with the identifiers drawn for it.
-/
namespace Vivarium

variable {α : Type} [Scalar α] {w w' : World α} {pos : Nat} {tick : Tick} {sire : Sire α FrameOp}
  {sires : List (Sire α FrameOp)}

/-! ## Turning away -/

/-- Credit the endowment of a sire to its parent's tile. -/
def World.credit (w : World α) (sire : Sire α FrameOp) : World α :=
  w.modifyStockpile sire.record.sourcePos
    (·.contribute sire.endowment (.ofNat sire.record.dir))

namespace World

@[simp] theorem size_credit (w : World α) (sire : Sire α FrameOp) : (w.credit sire).size = w.size :=
  size_modify _ _ _

/-- On the grid a refund is a credit. -/
theorem refund_eq (h : sire.record.sourcePos < w.size) : w.refund sire = .ok (w.credit sire) := by
  simp only [refund, within, h, if_true]
  rfl

theorem of_refund_eq_ok (h : w.refund sire = .ok w') :
    sire.record.sourcePos < w.size ∧ w' = w.credit sire := by
  by_cases hs : sire.record.sourcePos < w.size
  · exact ⟨hs, (Except.ok.inj ((refund_eq hs).symm.trans h)).symm⟩
  · simp only [refund, within, hs, if_false] at h
    cases h

/-- All sires can be turned away when their parents are on the grid. -/
theorem refunds_eq (w : World α) (h : ∀ s ∈ sires, s.record.sourcePos < w.size) :
    sires.foldlM refund w = .ok (sires.foldl credit w) := by
  induction sires generalizing w with
  | nil => rfl
  | cons s rest ih =>
    have hrest := ih (w.credit s) fun s' hs' => by
      rw [size_credit]
      exact h s' (List.mem_cons_of_mem s hs')
    rw [List.foldlM_cons, refund_eq (h s List.mem_cons_self)]
    exact hrest

theorem of_refunds_eq_ok (h : sires.foldlM refund w = .ok w') : w' = sires.foldl credit w := by
  induction sires generalizing w with
  | nil => exact (Except.ok.inj h).symm
  | cons s rest ih =>
    rw [List.foldlM_cons] at h
    obtain ⟨v, hr, h⟩ := bind_eq_ok h
    obtain rfl := (of_refund_eq_ok hr).2
    exact ih h

/-- All sires are turned away, first come first. -/
theorem refundIntake_eq (h : ∀ s ∈ (w.tile pos).intake, s.record.sourcePos < w.size) :
    w.refundIntake pos =
      .ok ((w.tile pos).intake.length, (w.tile pos).intake.foldl credit (w.clearIntake pos)) := by
  have hr := (w.clearIntake pos).refunds_eq fun s hs => by
    rw [clearIntake, size_modify]
    exact h s hs
  simp only [refundIntake, hr]
  rfl

theorem of_refundIntake_eq_ok {n : Nat} (h : w.refundIntake pos = .ok (n, w')) :
    w' = (w.tile pos).intake.foldl credit (w.clearIntake pos) := by
  obtain ⟨v, hr, hp⟩ := bind_eq_ok
    (show (w.tile pos).intake.foldlM refund (w.clearIntake pos) >>=
      (fun v => pure ((w.tile pos).intake.length, v)) = .ok (n, w') from h)
  rw [← (Prod.mk.inj (Except.ok.inj hp)).2]
  exact of_refunds_eq_ok hr

theorem stays_credits (w : World α) (sires : List (Sire α FrameOp)) :
    w.Stays (sires.foldl credit w) :=
  List.foldlRecOn sires credit (.refl w) fun _ hv _ _ => hv.trans (stays_modify _ _ _)

theorem stays_turnedAway (w : World α) (pos : Nat) (sires : List (Sire α FrameOp)) :
    w.Stays (sires.foldl credit (w.clearIntake pos)) :=
  (stays_modify _ _ _).trans (stays_credits _ sires)

/-! ## Settling -/

/-- The offspring of a sire takes the tile. -/
def install (w : World α) (pos : Nat) (tick : Tick) (sire : Sire α FrameOp) : World α :=
  (({ w with rng := (Channel.ofSire w.config.levels sire.record w.rng).2 }.modify pos fun t =>
      { t with
        channel := (Channel.ofSire w.config.levels sire.record w.rng).1
        family := .settled (some sire.record.sourcePos) tick sire.record.prevChan }).modifyFamily
    sire.record.sourcePos (·.addChild pos)).modify pos fun t =>
      { t with
        stockpile := t.stockpile.contribute sire.endowment
          (Direction.ofNat sire.record.dir).opposite }.occupy

theorem settle_eq (h : sire.record.sourcePos < w.size) :
    w.settle pos tick sire = .ok (w.install pos tick sire) := by
  have hs : sire.record.sourcePos < (w.modify pos id).size := by rwa [size_modify]
  simp only [size, modify, Array.size_modify] at hs
  simp only [settle, within, size, modify, Array.size_modify, hs, if_true]
  rfl

theorem of_settle_eq_ok (h : w.settle pos tick sire = .ok w') :
    sire.record.sourcePos < w.size ∧ w' = w.install pos tick sire := by
  by_cases hs : sire.record.sourcePos < w.size
  · exact ⟨hs, (Except.ok.inj ((settle_eq hs).symm.trans h)).symm⟩
  · simp only [size] at hs
    simp only [settle, within, size, modify, Array.size_modify, hs, if_false] at h
    cases h

/-- The sire settles after the others have been turned away. -/
theorem settleSire_eq (hin : (w.tile pos).intake = sire :: sires)
    (h : ∀ s ∈ sire :: sires, s.record.sourcePos < w.size) (tick : Tick) :
    w.settleSire pos tick = .ok (some sire.program,
      (sires.foldl credit (w.clearIntake pos)).install pos tick sire) := by
  have hsize : (w.clearIntake pos).size = w.size := size_modify _ _ _
  have hr := (w.clearIntake pos).refunds_eq fun s hs =>
    hsize.symm ▸ h s (List.mem_cons_of_mem sire hs)
  have hs : sire.record.sourcePos < (sires.foldl credit (w.clearIntake pos)).size := by
    rw [(stays_turnedAway w pos sires).size]
    exact h sire List.mem_cons_self
  unfold settleSire
  simp only [hin, hr]
  change (settle _ pos tick sire >>= fun v => pure (some sire.program, v)) = _
  rw [settle_eq hs]
  rfl

theorem of_settleSire_eq_ok {p : Option (Program FrameOp)}
    (hin : (w.tile pos).intake = sire :: sires) (h : w.settleSire pos tick = .ok (p, w')) :
    p = some sire.program ∧ w' = (sires.foldl credit (w.clearIntake pos)).install pos tick sire := by
  unfold settleSire at h
  simp only [hin] at h
  obtain ⟨v, hr, h⟩ := bind_eq_ok h
  obtain ⟨u, hs, h⟩ := bind_eq_ok h
  obtain ⟨hp, rfl⟩ := Prod.mk.inj (Except.ok.inj h)
  obtain rfl := of_refunds_eq_ok hr
  exact ⟨hp.symm, (of_settle_eq_ok hs).2⟩

theorem install_ground (w : World α) (pos : Nat) (tick : Tick) (sire : Sire α FrameOp) :
    (w.install pos tick sire).config = w.config ∧ (w.install pos tick sire).grid = w.grid ∧
      (w.install pos tick sire).size = w.size ∧
      (w.install pos tick sire).rng = (w.rng.draw (sire.record.renewals w.config.levels.length)).2 := by
  refine ⟨rfl, rfl, ?_, ?_⟩
  · simp [install, modifyFamily, modify, size]
  · exact Channel.snd_inheritAll _ _ _

/-- Steps change neither the settings nor the grid, and draw just the identifiers they say. -/
theorem Step.ground {news : List ChannelId} {gains : List α} (h : w.Step news gains w') :
    w'.config = w.config ∧ w'.grid = w.grid ∧ w'.size = w.size ∧
      w.rng.draw news.length = (news, w'.rng) := by
  have stays (h : w.Stays w') : w'.config = w.config ∧ w'.grid = w.grid ∧ w'.size = w.size ∧
      w.rng.draw ([] : List ChannelId).length = ([], w'.rng) :=
    ⟨h.config, h.grid, h.size, by rw [h.rng]; rfl⟩
  cases h with
  | quiet pos change _ => exact stays (stays_modify _ _ _)
  | forget _ => exact stays (stays_modify _ _ _)
  | send dir fraction _ => exact stays (stays_sendResource _ _ _ _)
  | reproduce facing relative level program _ => exact stays (stays_tryReproduce _ _ _ _ _ _)
  | @refund pos n w' _ hr =>
    obtain rfl := of_refundIntake_eq_ok hr
    exact stays (stays_turnedAway w pos (w.tile pos).intake)
  | found tick _ =>
    refine ⟨rfl, rfl, size_modify _ _ _, ?_⟩
    rw [Generator.length_draw]
    rfl
  | @settle pos tick sire losers p w' _ hin hs =>
    obtain ⟨-, rfl⟩ := of_settleSire_eq_ok hin hs
    have hst := stays_turnedAway w pos losers
    obtain ⟨hc, hg, hn, hr⟩ := install_ground (losers.foldl credit (w.clearIntake pos)) pos tick sire
    refine ⟨hc.trans hst.config, hg.trans hst.grid, hn.trans hst.size, ?_⟩
    rw [Generator.length_draw, hr, hst.config, hst.rng]
  | grow amount _ => exact stays (stays_modify _ _ _)

end World

end Vivarium
