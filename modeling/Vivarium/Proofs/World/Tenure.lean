import Mathlib.Logic.Relation
import Vivarium.Proofs.World.Occupancy
import Vivarium.Proofs.World.Shape
/-!
# Tenures

Whatever is done to a world comes down, on every tile, to a few elementary changes. Most of them are
upkeep: they leave the occupant who it is. The others take place only where a tile changes hands. So an
invariant of tiles has to survive the elementary changes only, and what upkeep preserves stays as it is as
long as a tile has its occupant.
-/
namespace Vivarium

variable {α : Type} [Scalar α]

/-! ## Elementary changes -/

namespace Tile

/-- The changes that leave the occupant who it is. -/
inductive Upkeep (t : Tile α) : Tile α → Prop where
  | request (amount : α) : Upkeep t { t with stockpile := (t.stockpile.request amount).2 }
  | contribute (amount : α) (d : Direction) :
      Upkeep t { t with stockpile := t.stockpile.contribute amount d }
  | grow (amount : α) : Upkeep t { t with stockpile := t.stockpile.grow amount }
  | harvests (harvested : List Bool) : Upkeep t { t with stockpile := { t.stockpile with harvested } }
  | controls (d : Direction) (change : Controls α → Controls α) :
      (∀ c : Controls α, c.Tended (change c)) →
      Upkeep t { t with controls := t.controls.modify d change }
  | inboxes (inboxes : PerFacing (List (Message α))) : Upkeep t { t with inboxes }
  | intake (intake : List (Sire α FrameOp)) : Upkeep t { t with intake }
  | mark (mark : Apoptosis) : Upkeep t { t with mark }
  | ages (ages : List UInt64) : Upkeep t { t with channel := { t.channel with ages } }
  | child (pos : Nat) : Upkeep t { t with family := t.family.addChild pos }

inductive Change (t : Tile α) : Tile α → Prop where
  | upkeep {u : Tile α} : t.Upkeep u → Change t u
  | channel (channel : Channel) : Change t { t with channel }
  | family (family : Family) : Change t { t with family }
  | tidy (live : Bool) : Change t { t.tidy with live }

abbrev Upkept : Tile α → Tile α → Prop := Relation.ReflTransGen Upkeep

abbrev Changed : Tile α → Tile α → Prop := Relation.ReflTransGen Change

/-- Who the occupant is: whether it lives, its lineage, and the propagule it descends from. -/
structure SameOccupant (t u : Tile α) : Prop where
  live : u.live = t.live
  ids : u.channel.ids = t.channel.ids
  generations : u.channel.generations = t.channel.generations
  prevChan : u.family.prevChan = t.family.prevChan

variable {t u : Tile α}

omit [Scalar α] in
theorem SameOccupant.trans {v : Tile α} (h : t.SameOccupant u) (h' : u.SameOccupant v) :
    t.SameOccupant v :=
  ⟨h'.live.trans h.live, h'.ids.trans h.ids, h'.generations.trans h.generations,
    h'.prevChan.trans h.prevChan⟩

omit [Scalar α] in
theorem SameOccupant.id?_eq (h : t.SameOccupant u) (level : Nat) :
    u.channel.id? level = t.channel.id? level := by rw [Channel.id?, Channel.id?, h.ids]

omit [Scalar α] in
theorem SameOccupant.generation_eq (h : t.SameOccupant u) (level : Nat) :
    u.channel.generation level = t.channel.generation level := by
  rw [Channel.generation, Channel.generation, h.generations]

theorem Upkeep.sameOccupant (h : t.Upkeep u) : t.SameOccupant u := by
  cases h with
  | _ => exact ⟨rfl, rfl, rfl, rfl⟩

/-- Upkeep does not change the occupant. -/
theorem Upkept.sameOccupant (h : t.Upkept u) : t.SameOccupant u := by
  induction h with
  | refl => exact ⟨rfl, rfl, rfl, rfl⟩
  | tail _ hu ih => exact ih.trans hu.sameOccupant

theorem Upkept.changed (h : t.Upkept u) : t.Changed u := by
  induction h with
  | refl => exact .refl
  | tail _ hu ih => exact ih.tail (.upkeep hu)

theorem changed_occupy (t : Tile α) (channel : Channel) (family : Family) :
    t.Changed { t with channel, family }.occupy :=
  Relation.ReflTransGen.refl.tail (.channel channel) |>.tail (.family family) |>.tail (.tidy true)

theorem changed_kill (t : Tile α) : t.Changed t.kill := .single (.tidy false)

theorem changed_forget (t : Tile α) : t.Changed t.kill.forget :=
  t.changed_kill.tail (.channel t.channel.clear) |>.tail (.family .none)

theorem upkept_advanceAges (t : Tile α) (ticks : UInt64) :
    t.Upkept { t with channel := t.channel.advanceAges ticks } := by
  cases h : t.channel.ids with
  | none =>
    simp only [Channel.advanceAges, h]
    exact .refl
  | some ids =>
    have hages : t.channel.advanceAges ticks =
        { t.channel with ages := t.channel.ages.map fun age => Word.add age ticks } := by
      simp only [Channel.advanceAges, h]
    rw [hages]
    exact .single (.ages _)

theorem upkept_resetHarvests (t : Tile α) (n : Nat) :
    t.Upkept { t with stockpile := t.stockpile.resetHarvests n } := by
  unfold Stockpile.resetHarvests
  induction List.range n generalizing t with
  | nil => exact .refl
  | cons level rest ih =>
    have hfirst : t.Upkept { t with stockpile := t.stockpile.resetHarvest level } :=
      .single (.harvests _)
    exact hfirst.trans (ih _)

end Tile

/-! ## Effects of frames -/

namespace World

variable {w v w' : World α} {pos : Nat}

/-- Every tile becomes by upkeep what it is in the other world. -/
def Upkept (w v : World α) : Prop := ∀ q, (w.tile q).Upkept (v.tile q)

theorem Upkept.refl (w : World α) : w.Upkept w := fun _ => .refl

theorem Upkept.trans (h : w.Upkept v) (h' : v.Upkept w') : w.Upkept w' := fun q => (h q).trans (h' q)

theorem upkept_modify {change : Tile α → Tile α} (h : (w.tile pos).Upkept (change (w.tile pos))) :
    w.Upkept (w.modify pos change) := by
  intro q
  rw [tile_modify]
  split
  · next hq =>
    rw [hq.1]
    exact h
  · exact .refl

theorem upkept_sendResource (w : World α) (pos : Nat) (dir : Direction) (fraction : α) :
    w.Upkept (w.sendResource pos dir fraction) := by
  by_cases hl : (w.tile (w.neighbor pos dir)).live = true
  · have hdebit : w.Upkept (w.modifyStockpile pos fun _ =>
        ((w.tile pos).stockpile.requestFraction fraction).2) :=
      upkept_modify (.single (.request _))
    simp only [sendResource, hl, if_true]
    exact hdebit.trans (upkept_modify (.single (.contribute _ _)))
  · simp only [sendResource, hl]
    exact .refl w

theorem upkept_tryReproduce (w : World α) (pos : Nat) (facing : Direction) (relative : α)
    (level : Nat) (program : Program FrameOp) :
    w.Upkept (w.tryReproduce pos facing relative level program).2 := by
  unfold tryReproduce
  cases w.reproductionLevel? pos facing level with
  | none => exact .refl w
  | some used =>
    have hdebit : w.Upkept (w.modifyStockpile pos fun _ =>
        ((w.tile pos).stockpile.request w.config.repThresh).2) :=
      upkept_modify (.single (.request _))
    exact hdebit.trans (upkept_modify (.single (.intake _)))

/-- Instructions do nothing but upkeep. -/
theorem Effect.upkept {facing : Direction} {program : Program FrameOp}
    (h : Effect pos facing program w v) : w.Upkept v := by
  cases h with
  | control dir change hc => exact upkept_modify (.single (.controls dir change hc))
  | mailInside dir m => exact upkept_modify (.single (.inboxes _))
  | mailOut dir m _ => exact upkept_modify (.single (.inboxes _))
  | send dir fraction => exact upkept_sendResource w pos dir fraction
  | reproduce relative level => exact upkept_tryReproduce w pos facing relative level _
  | age level delta => exact upkept_modify (.single (.ages _))
  | mark mark => exact upkept_modify (.single (.mark mark))

end World

namespace Controls

theorem tended_reset (c : Controls α) : c.Tended c.reset := ⟨List.length_map _, .inr (.inl rfl)⟩

/-- A reserve that runs out is nothing, and until then it is what it was. -/
theorem tended_relent (c : Controls α) :
    c.Tended { c with reserve := c.reserve.tryClear }.resumeAll := by
  refine ⟨List.length_map _, ?_⟩
  by_cases h : HalfWord.pred c.reserve.fresh = 0
  · exact .inr (.inl (if_pos h))
  · exact .inl (if_neg h)

end Controls

namespace Frame

variable (f : Frame α) (w : World α)

theorem upkept_execute : w.Upkept (f.execute w).2 :=
  f.execute_induction (I := fun v => w.Upkept v) (fun _ _ he h => h.trans he.upkept) w (.refl w)

theorem upkept_advanceEnvironment (tick : Tick) : w.Upkept (f.advanceEnvironment w tick).2.2 := by
  unfold advanceEnvironment
  split
  · have hharvests : w.Upkept (w.modifyStockpile f.pos (·.resetHarvests w.config.nlev)) :=
      World.upkept_modify ((w.tile f.pos).upkept_resetHarvests _)
    exact hharvests.trans (World.upkept_modify (.single (.controls _ _ Controls.tended_relent)))
  · exact .refl w

theorem upkept_queueMessages : w.Upkept (f.queueMessages w).2 :=
  World.upkept_modify (.single (.inboxes _))

theorem upkept_reset : w.Upkept (f.reset w).2 :=
  World.Upkept.trans (World.upkept_modify (.single (.controls _ _ Controls.tended_reset)))
    (World.upkept_modify (.single (.inboxes _)))

end Frame

/-! ## Deeds -/

namespace World

variable {w v w' : World α} {pos : Nat}

theorem upkept_credits (w : World α) (pos : Nat) (sires : List (Sire α FrameOp)) :
    w.Upkept (sires.foldl credit (w.clearIntake pos)) := by
  refine List.foldlRecOn sires credit (motive := fun v => w.Upkept v) ?_ fun v hv sire _ => ?_
  · exact upkept_modify (.single (.intake []))
  · exact hv.trans (upkept_modify (.single (.contribute _ _)))

/-- The tile of the offspring changes hands, and that of its parent is kept up. -/
theorem changed_install (hp : pos < w.size) {sire : Sire α FrameOp}
    (hs : sire.record.sourcePos < w.size) (tick : Tick) (q : Nat) :
    (w.tile q).Changed ((w.install pos tick sire).tile q) ∧
      (q ≠ pos → (w.tile q).Upkept ((w.install pos tick sire).tile q)) := by
  by_cases hq : q = pos
  · refine ⟨?_, fun h => absurd hq h⟩
    rw [hq, tile_install_same hp hs]
    have hcredit : (w.tile pos).Changed { w.tile pos with
        stockpile := (w.tile pos).stockpile.contribute sire.endowment
          (Direction.ofNat sire.record.dir).opposite } :=
      .single (.upkeep (.contribute _ _))
    exact hcredit.trans (Tile.changed_occupy _ _ _)
  · have hup : (w.tile q).Upkept ((w.install pos tick sire).tile q) := by
      rw [tile_install_other hs tick hq]
      split
      · exact .single (.child pos)
      · exact .refl
    exact ⟨hup.changed, fun _ => hup⟩

/-- Only the tile on which a sire settles gets another occupant. -/
theorem changed_settleSire (hw : w.Sound) (hp : pos < w.size) {tick : Tick}
    {program : Option (Program FrameOp)} (hs : w.settleSire pos tick = .ok (program, v)) (q : Nat) :
    (w.tile q).Changed (v.tile q) ∧
      (¬(q = pos ∧ (w.tile pos).intake ≠ []) → (w.tile q).Upkept (v.tile q)) := by
  cases hin : (w.tile pos).intake with
  | nil =>
    obtain ⟨-, rfl⟩ := Prod.mk.inj (Except.ok.inj ((settleSire_nil hin tick).symm.trans hs))
    exact ⟨.refl, fun _ => .refl⟩
  | cons sire losers =>
    obtain ⟨-, rfl⟩ := of_settleSire_eq_ok hin hs
    have hsize := (stays_turnedAway w pos losers).size
    have hup := upkept_credits w pos losers q
    have hsource := hw.sources pos sire (hin ▸ List.mem_cons_self)
    obtain ⟨hchanged, hkept⟩ := changed_install (hsize.symm ▸ hp) (hsize.symm ▸ hsource) tick q
    refine ⟨hup.changed.trans hchanged, fun hr => hup.trans (hkept fun hq => hr ⟨hq, ?_⟩)⟩
    exact List.cons_ne_nil _ _

/-- A change of one tile, by which it changes hands. -/
theorem changed_modify (w : World α) (pos : Nat) {change : Tile α → Tile α}
    (h : ∀ t : Tile α, t.Changed (change t)) (q : Nat) :
    (w.tile q).Changed ((w.modify pos change).tile q) ∧
      (q ≠ pos → (w.tile q).Upkept ((w.modify pos change).tile q)) := by
  constructor
  · rw [tile_modify]
    split
    · exact h _
    · exact .refl
  · intro hq
    rw [tile_modify_other _ _ hq]

/-- Only the tile that is marked loses its occupant. -/
theorem changed_applyApoptosis (w : World α) (pos q : Nat) :
    (w.tile q).Changed ((w.applyApoptosis pos).2.tile q) ∧
      (¬(q = pos ∧ (w.tile pos).mark ≠ .unmarked) →
        (w.tile q).Upkept ((w.applyApoptosis pos).2.tile q)) := by
  unfold applyApoptosis
  cases (w.tile pos).mark with
  | unmarked => exact ⟨.refl, fun _ => .refl⟩
  | partialDeath =>
    obtain ⟨hchanged, hkept⟩ := w.changed_modify pos Tile.changed_kill q
    exact ⟨hchanged, fun hr => hkept fun hq => hr ⟨hq, by decide⟩⟩
  | completeDeath =>
    obtain ⟨hchanged, hkept⟩ := w.changed_modify pos Tile.changed_forget q
    exact ⟨hchanged, fun hr => hkept fun hq => hr ⟨hq, by decide⟩⟩

end World

/-- The deed gives the tile another occupant, or none. -/
def Deed.Replaces (w : World α) (q : Nat) : Deed α → Prop
  | .found pos _ | .vacate pos => q = pos
  | .settle pos _ => q = pos ∧ (w.tile pos).intake ≠ []
  | .die pos => q = pos ∧ (w.tile pos).mark ≠ .unmarked
  | _ => False

/-- Deeds change tiles, and keep those up that do not change hands. -/
theorem Deed.changed {w v : World α} (hw : w.Sound) {d : Deed α} (hd : d.perform w = .ok v) (q : Nat) :
    (w.tile q).Changed (v.tile q) ∧ (¬d.Replaces w q → (w.tile q).Upkept (v.tile q)) := by
  obtain ⟨hpos, hact⟩ := Deed.of_perform_eq_ok hd
  have quiet (h : w.Upkept v) :
      (w.tile q).Changed (v.tile q) ∧ (¬d.Replaces w q → (w.tile q).Upkept (v.tile q)) :=
    ⟨(h q).changed, fun _ => h q⟩
  cases d with
  | found pos tick =>
    obtain rfl := Except.ok.inj hact
    rw [World.tile_found (show pos < w.size from hpos)]
    by_cases hq : q = pos
    · rw [if_pos hq]
      exact ⟨Tile.changed_occupy _ _ _, fun hr => absurd hq hr⟩
    · rw [if_neg hq]
      exact ⟨.refl, fun _ => .refl⟩
  | settle pos tick =>
    obtain ⟨⟨program, u⟩, hs, rfl⟩ := map_eq_ok hact
    exact World.changed_settleSire hw hpos hs q
  | refund pos =>
    obtain ⟨⟨n, u⟩, hr, rfl⟩ := map_eq_ok hact
    obtain rfl := World.of_refundIntake_eq_ok hr
    exact quiet (World.upkept_credits w pos _)
  | die pos =>
    obtain rfl := Except.ok.inj hact
    exact w.changed_applyApoptosis pos q
  | vacate pos =>
    obtain rfl := Except.ok.inj hact
    exact w.changed_modify pos Tile.changed_forget q
  | reproduce pos facing relative level program =>
    obtain rfl := Except.ok.inj hact
    exact quiet (w.upkept_tryReproduce pos facing relative level program)
  | mark pos mark =>
    obtain rfl := Except.ok.inj hact
    exact quiet (World.upkept_modify (.single (.mark mark)))
  | environment f tick =>
    obtain rfl := Except.ok.inj hact
    exact quiet (f.upkept_advanceEnvironment w tick)
  | messages f =>
    obtain rfl := Except.ok.inj hact
    exact quiet (f.upkept_queueMessages w)
  | execute f =>
    obtain rfl := Except.ok.inj hact
    refine quiet ?_
    unfold Frame.stepOnce
    by_cases hf : f.hasProgram
    · simp only [hf, if_true]
      exact f.upkept_execute w
    · simp only [hf]
      exact .refl w
  | reset f =>
    obtain rfl := Except.ok.inj hact
    exact quiet (f.upkept_reset w)
  | age pos ticks =>
    obtain rfl := Except.ok.inj hact
    exact quiet (World.upkept_modify ((w.tile pos).upkept_advanceAges ticks))
  | ageAt pos level delta =>
    obtain rfl := Except.ok.inj hact
    exact quiet (World.upkept_modify (.single (.ages _)))
  | grow pos amount =>
    obtain rfl := Except.ok.inj hact
    exact quiet (World.upkept_modify (.single (.grow amount)))

/-! ## Edits -/

namespace Tile.Edit

/-- The edit overwrites who the occupant is. -/
def Overwrites : Edit α → Prop
  | clearChannel | settleFamily _ _ _ | resetFamily => True
  | _ => False

theorem changed (t : Tile α) (e : Edit α) :
    t.Changed (e.apply t) ∧ (¬e.Overwrites → t.Upkept (e.apply t)) := by
  have quiet (h : t.Upkept (e.apply t)) :
      t.Changed (e.apply t) ∧ (¬e.Overwrites → t.Upkept (e.apply t)) :=
    ⟨h.changed, fun _ => h⟩
  have control (d : Direction) {f : Controls α → Controls α}
      (hf : ∀ c : Controls α, c.Tended (f c)) : t.Upkept (Edit.control t d f) :=
    .single (.controls d f hf)
  cases e with
  | request | requestFraction => exact quiet (.single (.request _))
  | contribute amount d => exact quiet (.single (.contribute amount d))
  | harvest level amount =>
    have hmark := Upkeep.harvests (t := t) (t.stockpile.harvested.modify level fun _ => true)
    exact quiet (Relation.ReflTransGen.single hmark |>.tail (.request amount))
  | resetHarvest level => exact quiet (.single (.harvests _))
  | clearChannel => exact ⟨.single (.channel _), fun h => absurd trivial h⟩
  | settleFamily | resetFamily => exact ⟨.single (.family _), fun h => absurd trivial h⟩
  | addChild pos => exact quiet (.single (.child pos))
  | push | pop | drain => exact quiet (.single (.intake _))
  | deliver | clearInbox => exact quiet (.single (.inboxes _))
  | setInbox d => exact quiet (control d fun _ => ⟨rfl, .inl rfl⟩)
  | pause d | resume d => exact quiet (control d fun _ => ⟨List.length_modify _ _ _, .inl rfl⟩)
  | pauseAll d | resumeAll d => exact quiet (control d fun _ => ⟨List.length_map _, .inl rfl⟩)
  | resetControls d => exact quiet (control d Controls.tended_reset)
  | setReserve d | adjustReserve d =>
    exact quiet (control d fun _ => ⟨rfl, .inr (.inr ⟨_, _, rfl⟩)⟩)
  | tryClearReserve d => exact quiet (control d fun c => ⟨rfl, c.tended_relent.reserve⟩)

end Tile.Edit

/-! ## Runs and tenures -/

namespace World

variable {config : Config α} {w v : World α}

/-- What holds of a barren tile and survives every change holds of all tiles, whatever is done. -/
theorem Run.tiles {P : Tile α → Prop} (hP : ∀ t u : Tile α, t.Change u → P t → P u)
    (hbarren : P (.barren config.nlev config.levels)) (h : Run config w) (q : Nat) :
    P (w.tile q) := by
  have changed {t u : Tile α} (hc : t.Changed u) (ht : P t) : P u := by
    induction hc with
    | refl => exact ht
    | tail _ hu ih => exact hP _ _ hu ih
  induction h with
  | new h =>
    rw [tile_new h]
    exact hbarren
  | deed d hw hd ih => exact changed (d.changed hw.sound hd q).1 ih
  | edit e _ _ _ ih =>
    rw [tile_modify]
    split
    · exact changed (e.changed _).1 ih
    · exact ih

/-- The worlds that the owner of a world can bring about while a tile keeps its occupant. -/
inductive Tenure (a : Nat) (w : World α) : World α → Prop where
  | start : Tenure a w w
  | deed {u v : World α} (d : Deed α) : Tenure a w u → ¬d.Replaces u a → d.perform u = .ok v →
      Tenure a w v
  | edit {u : World α} {pos : Nat} (e : Tile.Edit α) : Tenure a w u → pos < u.size →
      (∀ sire, e = .push sire → sire.record.sourcePos < u.size) → (pos = a → ¬e.Overwrites) →
      Tenure a w (u.modify pos e.apply)

namespace Tenure

variable {a : Nat}

theorem run (h : w.Tenure a v) (hw : Run config w) : Run config v := by
  induction h with
  | start => exact hw
  | deed d _ _ hd ih => exact ih.deed d hd
  | edit e _ hp hpush _ ih => exact ih.edit e hp hpush

/-- Nothing but upkeep happens to the tile. -/
theorem upkept (h : w.Tenure a v) (hw : Run config w) : (w.tile a).Upkept (v.tile a) := by
  induction h with
  | start => exact .refl
  | deed d hu hr hd ih => exact ih.trans ((d.changed (hu.run hw).sound hd a).2 hr)
  | edit e _ _ _ ho ih =>
    refine ih.trans ?_
    rw [tile_modify]
    split
    · next ha => exact (e.changed _).2 (ho ha.1.symm)
    · exact .refl

end Tenure

end World

end Vivarium
