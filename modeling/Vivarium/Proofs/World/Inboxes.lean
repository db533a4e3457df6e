import Vivarium.Proofs.World.Shape
/-!
# What happens to an inbox

Messages are put behind those that wait, and an inbox is only ever emptied as a whole: by a new occupant,
by death, by a reset or by the frame that reads it. Nothing takes single messages out or changes their
order.
-/
namespace Vivarium

variable {α : Type} [Scalar α]

/-- The worlds differ at most in what waits in inboxes. -/
structure World.SameButInboxes (w v : World α) : Prop where
  tile : ∀ q, { v.tile q with inboxes := (w.tile q).inboxes } = w.tile q
  rest : v = { w with tiles := v.tiles }
  size : v.size = w.size

/-- More may wait on this side of a tile than before, or nothing any more. -/
def Tile.Collects (d : Direction) (t u : Tile α) : Prop :=
  t.inboxes.get d <+: u.inboxes.get d ∨ u.inboxes.get d = []

namespace World

variable {w v u : World α}

namespace SameButInboxes

theorem refl (w : World α) : w.SameButInboxes w := ⟨fun _ => rfl, rfl, rfl⟩

theorem trans (h : w.SameButInboxes v) (h' : v.SameButInboxes u) : w.SameButInboxes u where
  tile q := by rw [← h.tile q, ← h'.tile q]
  rest := by rw [h'.rest, h.rest]
  size := h'.size.trans h.size

theorem live (h : w.SameButInboxes v) (q : Nat) : (v.tile q).live = (w.tile q).live := by
  rw [← h.tile q]

theorem neighbor (h : w.SameButInboxes v) (p : Nat) (d : Direction) :
    v.neighbor p d = w.neighbor p d := by
  rw [h.rest]
  rfl

end SameButInboxes

theorem sameButInboxes_modifyInbox (w : World α) (pos : Nat) (d : Direction)
    (change : List (Message α) → List (Message α)) : w.SameButInboxes (w.modifyInbox pos d change) where
  tile q := by
    rw [modifyInbox, tile_modify]
    split <;> rfl
  rest := rfl
  size := size_modify _ _ _

/-! ## Changes of one inbox -/

theorem inbox_modifyInbox_same {pos : Nat} (hpos : pos < w.size) (d : Direction)
    (change : List (Message α) → List (Message α)) :
    (w.modifyInbox pos d change).inbox pos d = change (w.inbox pos d) := by
  rw [inbox, modifyInbox, tile_modify_same _ _ hpos]
  exact PerFacing.get_modify_same _ _ _

theorem inbox_modifyInbox_other {pos q : Nat} {d e : Direction} (h : ¬(q = pos ∧ e = d))
    (change : List (Message α) → List (Message α)) :
    (w.modifyInbox pos d change).inbox q e = w.inbox q e := by
  rw [inbox, modifyInbox, tile_modify]
  split
  · next hq => exact PerFacing.get_modify_other _ _ fun he => h ⟨hq.1, he⟩
  · rfl

/-- Off the grid nothing waits, so that an inbox can be emptied anywhere. -/
theorem inbox_emptied (w : World α) (pos : Nat) (d : Direction) :
    (w.modifyInbox pos d fun _ => []).inbox pos d = [] := by
  by_cases hpos : pos < w.size
  · exact inbox_modifyInbox_same hpos d _
  · rw [inbox, modifyInbox, tile_modify, if_neg fun h => hpos h.2, tile,
      dif_neg (show ¬pos < w.tiles.size from hpos)]
    exact PerFacing.get_replicate _ _

theorem inbox_modify (w : World α) (pos q : Nat) (d : Direction) (change : Tile α → Tile α)
    (h : ∀ t, (change t).inboxes = t.inboxes) : (w.modify pos change).inbox q d = w.inbox q d :=
  tile_modify_congr (·.inboxes.get d) w pos q fun t => by rw [h t]

theorem prefix_of_inbox_eq {q : Nat} {d : Direction} (h : v.inbox q d = w.inbox q d) :
    w.inbox q d <+: v.inbox q d :=
  h ▸ List.prefix_rfl

/-- A delivery goes behind what waits. -/
theorem prefix_inbox_deliver (w : World α) (pos : Nat) (d : Direction) (m : Message α) (q : Nat)
    (e : Direction) : w.inbox q e <+: (w.deliver pos d m).inbox q e := by
  rw [deliver]
  by_cases h : q = pos ∧ e = d
  · by_cases hpos : pos < w.size
    · rw [h.1, h.2, inbox_modifyInbox_same hpos]
      exact List.prefix_append _ _
    · refine prefix_of_inbox_eq ?_
      rw [inbox, modifyInbox, tile_modify, if_neg fun hq => hpos hq.2]
      rfl
  · exact prefix_of_inbox_eq (inbox_modifyInbox_other h _)

theorem inbox_modifyStockpile (w : World α) (pos : Nat) (f : Stockpile α → Stockpile α) (q : Nat)
    (d : Direction) : (w.modifyStockpile pos f).inbox q d = w.inbox q d :=
  inbox_modify w pos q d (fun t => { t with stockpile := f t.stockpile }) fun _ => rfl

theorem inbox_modifyControls (w : World α) (pos : Nat) (facing : Direction)
    (f : Controls α → Controls α) (q : Nat) (d : Direction) :
    (w.modifyControls pos facing f).inbox q d = w.inbox q d :=
  inbox_modify w pos q d (fun t => { t with controls := t.controls.modify facing f })
    fun _ => rfl

theorem inbox_receive (w : World α) (pos : Nat) (sire : Sire α FrameOp) (q : Nat) (d : Direction) :
    (w.receive pos sire).inbox q d = w.inbox q d :=
  inbox_modify w pos q d (fun t => { t with intake := t.intake ++ [sire] }) fun _ => rfl

theorem inbox_modifyChannel (w : World α) (pos : Nat) (f : Channel → Channel) (q : Nat) (d : Direction) :
    (w.modifyChannel pos f).inbox q d = w.inbox q d :=
  inbox_modify w pos q d (fun t => { t with channel := f t.channel }) fun _ => rfl

theorem inbox_setMark (w : World α) (pos : Nat) (mark : Apoptosis) (q : Nat) (d : Direction) :
    (w.setMark pos mark).inbox q d = w.inbox q d :=
  inbox_modify w pos q d (fun t => { t with mark }) fun _ => rfl

theorem inbox_turnedAway (w : World α) (pos : Nat) (sires : List (Sire α FrameOp)) (q : Nat)
    (d : Direction) : (sires.foldl credit (w.clearIntake pos)).inbox q d = w.inbox q d := by
  refine List.foldlRecOn sires credit (motive := fun v => v.inbox q d = w.inbox q d) ?_
    fun v hv sire _ => ?_
  · exact inbox_modify w pos q d (fun t => { t with intake := [] }) fun _ => rfl
  · exact (v.inbox_modifyStockpile _ _ q d).trans hv

/-! ## Frames -/

/-- Whatever frames do takes nothing out of an inbox. -/
theorem Effect.prefix_inbox {pos : Nat} {facing : Direction} {program : Program FrameOp}
    (h : Effect pos facing program w v) (q : Nat) (d : Direction) : w.inbox q d <+: v.inbox q d := by
  cases h with
  | control dir change _ => exact prefix_of_inbox_eq (w.inbox_modifyControls pos dir change q d)
  | mailInside dir m => exact w.prefix_inbox_deliver pos dir m q d
  | mailOut dir m _ => exact w.prefix_inbox_deliver _ dir.opposite m q d
  | send dir fraction =>
    by_cases hl : (w.tile (w.neighbor pos dir)).live = true
    · simp only [sendResource, hl, if_true]
      exact prefix_of_inbox_eq ((inbox_modifyStockpile _ _ _ q d).trans (w.inbox_modifyStockpile pos _ q d))
    · simp only [sendResource, hl]
      exact List.prefix_rfl
  | reproduce relative level =>
    unfold tryReproduce
    cases w.reproductionLevel? pos facing level with
    | none => exact List.prefix_rfl
    | some used =>
      exact prefix_of_inbox_eq ((inbox_receive _ _ _ q d).trans (w.inbox_modifyStockpile pos _ q d))
  | age level delta => exact prefix_of_inbox_eq (w.inbox_modifyChannel pos _ q d)
  | mark mark => exact prefix_of_inbox_eq (w.inbox_setMark pos mark q d)

end World

/-- A pass takes nothing out of an inbox. -/
theorem Frame.prefix_inbox_execute (f : Frame α) (w : World α) (q : Nat) (d : Direction) :
    w.inbox q d <+: (f.execute w).2.inbox q d :=
  f.execute_induction (I := fun v => w.inbox q d <+: v.inbox q d)
    (fun _ _ he h => h.trans (he.prefix_inbox q d)) w List.prefix_rfl

theorem Frame.inbox_advanceEnvironment (f : Frame α) (w : World α) (tick : Tick) (q : Nat)
    (d : Direction) : (f.advanceEnvironment w tick).2.2.inbox q d = w.inbox q d := by
  unfold advanceEnvironment
  split
  · exact (World.inbox_modifyControls _ _ _ _ q d).trans (w.inbox_modifyStockpile f.pos _ q d)
  · rfl

/-! ## Deeds and edits -/

section

variable {w v : World α} {d : Direction}

/-- An edit adds a message, empties an inbox or leaves all inboxes alone. -/
theorem Tile.Edit.collects (e : Tile.Edit α) (t : Tile α) (d : Direction) : t.Collects d (e.apply t) := by
  cases e with
  | deliver dir m =>
    refine .inl ?_
    by_cases hd : d = dir
    · rw [hd]
      exact PerFacing.get_modify_same t.inboxes dir (· ++ [m]) ▸ List.prefix_append _ _
    · exact PerFacing.get_modify_other t.inboxes (· ++ [m]) hd ▸ List.prefix_rfl
  | clearInbox dir =>
    by_cases hd : d = dir
    · rw [hd]
      exact .inr (PerFacing.get_modify_same t.inboxes dir fun _ => [])
    · exact .inl (PerFacing.get_modify_other t.inboxes (fun _ => []) hd ▸ List.prefix_rfl)
  | _ => exact .inl List.prefix_rfl

/-- A new occupant and a death leave empty inboxes. -/
theorem Tile.collects_tidy (t : Tile α) (d : Direction) : t.Collects d t.tidy :=
  .inr (PerFacing.get_replicate _ _)

theorem Tile.collects_occupy (t u : Tile α) (d : Direction) : t.Collects d u.occupy :=
  .inr (PerFacing.get_replicate _ _)

omit [Scalar α] in
theorem Tile.Collects.congr {t t' u : Tile α} (h : t'.Collects d u)
    (ht : t'.inboxes.get d = t.inboxes.get d) : t.Collects d u := by
  rwa [Collects, ← ht]

theorem World.collects_modify (w : World α) (pos : Nat) (change : Tile α → Tile α)
    (h : ∀ t : Tile α, t.Collects d (change t)) (q : Nat) :
    (w.tile q).Collects d ((w.modify pos change).tile q) := by
  rw [tile_modify]
  split
  · exact h _
  · exact .inl List.prefix_rfl

theorem World.collects_of_inbox_eq {q : Nat} (h : v.inbox q d = w.inbox q d) :
    (w.tile q).Collects d (v.tile q) :=
  .inl (prefix_of_inbox_eq h)

theorem World.collects_found (w : World α) (pos : Nat) (tick : Tick) (q : Nat) (d : Direction) :
    (w.tile q).Collects d ((w.found pos tick).tile q) := by
  have hoccupied := collects_modify (d := d) { w with rng := (Channel.founder w.config.levels w.rng).2 } pos
    (fun t => Tile.occupy { t with
      channel := (Channel.founder w.config.levels w.rng).1
      family := .settled none tick none }) (fun t => t.collects_occupy _ d) q
  exact hoccupied

theorem World.collects_install (w : World α) (pos : Nat) (tick : Tick) (sire : Sire α FrameOp) (q : Nat)
    (d : Direction) : (w.tile q).Collects d ((w.install pos tick sire).tile q) := by
  have hsettled := World.inbox_modify { w with rng := (Channel.ofSire w.config.levels sire.record w.rng).2 }
    pos q d (fun t => { t with
      channel := (Channel.ofSire w.config.levels sire.record w.rng).1
      family := .settled (some sire.record.sourcePos) tick sire.record.prevChan }) fun _ => rfl
  have hlearned (u : World α) := u.inbox_modify sire.record.sourcePos q d
    (fun t => { t with family := t.family.addChild pos }) fun _ => rfl
  rw [install]
  exact (collects_modify _ pos _ (fun t => t.collects_occupy _ d) q).congr
    ((hlearned _).trans hsettled)

/-- A deed adds to an inbox, empties it or leaves it alone. -/
theorem Deed.collects {deed : Deed α} (h : deed.perform w = .ok v) (q : Nat) (d : Direction) :
    (w.tile q).Collects d (v.tile q) := by
  obtain ⟨-, hact⟩ := of_perform_eq_ok h
  cases deed with
  | found pos tick =>
    obtain rfl := Except.ok.inj hact
    exact w.collects_found pos tick q d
  | settle pos tick =>
    obtain ⟨⟨program, u⟩, hs, rfl⟩ := map_eq_ok hact
    cases hin : (w.tile pos).intake with
    | nil =>
      obtain ⟨-, rfl⟩ := Prod.mk.inj (Except.ok.inj ((World.settleSire_nil hin tick).symm.trans hs))
      exact .inl List.prefix_rfl
    | cons sire losers =>
      obtain ⟨-, rfl⟩ := World.of_settleSire_eq_ok hin hs
      exact (World.collects_install _ pos tick sire q d).congr (w.inbox_turnedAway pos losers q d)
  | refund pos =>
    obtain ⟨⟨n, u⟩, hr, rfl⟩ := map_eq_ok hact
    rw [World.of_refundIntake_eq_ok hr]
    exact World.collects_of_inbox_eq (w.inbox_turnedAway pos _ q d)
  | reproduce pos facing relative level program =>
    obtain rfl := Except.ok.inj hact
    have hreproduced : World.Effect pos facing program w (w.tryReproduce pos facing relative level program).2 :=
      .reproduce relative level
    exact .inl (hreproduced.prefix_inbox q d)
  | die pos =>
    obtain rfl := Except.ok.inj hact
    unfold World.applyApoptosis
    cases (w.tile pos).mark with
    | unmarked => exact .inl List.prefix_rfl
    | partialDeath => exact w.collects_modify pos Tile.kill (fun t => t.collects_tidy d) q
    | completeDeath =>
      exact w.collects_modify pos (fun t => t.kill.forget) (fun t => t.collects_tidy d) q
  | vacate pos =>
    obtain rfl := Except.ok.inj hact
    exact w.collects_modify pos (fun t => t.kill.forget) (fun t => t.collects_tidy d) q
  | environment f tick =>
    obtain rfl := Except.ok.inj hact
    exact World.collects_of_inbox_eq (f.inbox_advanceEnvironment w tick q d)
  | messages f =>
    obtain rfl := Except.ok.inj hact
    exact w.collects_modify f.pos _ (fun t => (Tile.Edit.clearInbox f.facing).collects t d) q
  | execute f =>
    obtain rfl := Except.ok.inj hact
    unfold Frame.stepOnce
    by_cases hp : f.hasProgram
    · simp only [hp, if_true]
      exact .inl (f.prefix_inbox_execute w q d)
    · simp only [hp]
      exact .inl List.prefix_rfl
  | reset f =>
    obtain rfl := Except.ok.inj hact
    exact (World.collects_modify _ f.pos _ (fun t => (Tile.Edit.clearInbox f.facing).collects t d) q).congr
      (w.inbox_modifyControls f.pos f.facing _ q d)
  | mark pos mark =>
    obtain rfl := Except.ok.inj hact
    exact World.collects_of_inbox_eq (w.inbox_setMark pos mark q d)
  | age pos ticks =>
    obtain rfl := Except.ok.inj hact
    exact World.collects_of_inbox_eq (w.inbox_modifyChannel pos _ q d)
  | ageAt pos level delta =>
    obtain rfl := Except.ok.inj hact
    exact World.collects_of_inbox_eq (w.inbox_modifyChannel pos _ q d)
  | grow pos amount =>
    obtain rfl := Except.ok.inj hact
    exact World.collects_of_inbox_eq (w.inbox_modifyStockpile pos _ q d)

end

end Vivarium
