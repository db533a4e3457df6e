import Vivarium.Frame.Environment
import Vivarium.Proofs.Machine.Renaming
import Vivarium.Proofs.World.Effects
/-!
# What a frame can tell

A frame looks at its own tile and the four around it, and nothing it is asked shows the handles of its
registries. So two frames that differ in handles only, in worlds that differ only where they do not look,
give the same answers, do the same to their worlds and go on to differ in nothing more.
-/
namespace Vivarium

variable {α : Type} [Scalar α]

def World.Near (w : World α) (pos p : Nat) : Prop := p = pos ∨ ∃ d, p = w.neighbor pos d

/-- Worlds become others in a way that a frame at `pos` does not notice, as long as they have a
property that no change near the frame takes from them. -/
structure World.Unnoticed (pos : Nat) (I : World α → Prop) (φ : World α → World α) : Prop where
  config : ∀ w, (φ w).config = w.config
  grid : ∀ w, (φ w).grid = w.grid
  triggerTags : ∀ w, (φ w).triggerTags = w.triggerTags
  tile : ∀ w p, I w → w.Near pos p → (φ w).tile p = w.tile p
  modify : ∀ w p f, I w → w.Near pos p → (φ w).modify p f = φ (w.modify p f)
  kept : ∀ w p f, I w → w.Near pos p → I (w.modify p f)

namespace World

theorem unnoticed_id (pos : Nat) : Unnoticed pos (fun _ : World α => True) id where
  config _ := rfl
  grid _ := rfl
  triggerTags _ := rfl
  tile _ _ _ _ := rfl
  modify _ _ _ _ _ := rfl
  kept _ _ _ _ _ := trivial

/-- An operation on worlds that goes on as before, and keeps what it has to. -/
structure Faithful (I : World α → Prop) (φ : World α → World α) (op : World α → World α)
    (w : World α) : Prop where
  commutes : op (φ w) = φ (op w)
  kept : I (op w)

namespace Unnoticed

variable {pos : Nat} {I : World α → Prop} {φ : World α → World α} {w : World α}

theorem neighbor (h : Unnoticed pos I φ) (w : World α) (d : Direction) :
    (φ w).neighbor pos d = w.neighbor pos d := by
  rw [World.neighbor, h.grid]
  rfl

theorem tile_here (h : Unnoticed pos I φ) (hw : I w) : (φ w).tile pos = w.tile pos :=
  h.tile w pos hw (.inl rfl)

theorem tile_there (h : Unnoticed pos I φ) (hw : I w) (d : Direction) :
    (φ w).tile (w.neighbor pos d) = w.tile (w.neighbor pos d) := h.tile w _ hw (.inr ⟨d, rfl⟩)

/-- What is done to the tile of the frame is done alike in both worlds. -/
theorem faithful_here (h : Unnoticed pos I φ) (hw : I w) (f : Tile α → Tile α) :
    Faithful I φ (·.modify pos f) w := ⟨h.modify w pos f hw (.inl rfl), h.kept w pos f hw (.inl rfl)⟩

/-- What is done to a neighbour is done alike in both worlds. -/
theorem faithful_there (h : Unnoticed pos I φ) (hw : I w) (d : Direction) (f : Tile α → Tile α) :
    Faithful I φ (·.modify (w.neighbor pos d) f) w :=
  ⟨h.modify w _ f hw (.inr ⟨d, rfl⟩), h.kept w _ f hw (.inr ⟨d, rfl⟩)⟩

/-! ## Operations of a frame -/

theorem faithful_modifyControls (h : Unnoticed pos I φ) (hw : I w) (d : Direction)
    (change : Controls α → Controls α) : Faithful I φ (·.modifyControls pos d change) w :=
  h.faithful_here hw fun t => { t with controls := t.controls.modify d change }

theorem faithful_modifyChannel (h : Unnoticed pos I φ) (hw : I w) (change : Channel → Channel) :
    Faithful I φ (·.modifyChannel pos change) w :=
  h.faithful_here hw fun t => { t with channel := change t.channel }

theorem faithful_modifyStockpile (h : Unnoticed pos I φ) (hw : I w)
    (change : Stockpile α → Stockpile α) : Faithful I φ (·.modifyStockpile pos change) w :=
  h.faithful_here hw fun t => { t with stockpile := change t.stockpile }

theorem faithful_modifyInbox (h : Unnoticed pos I φ) (hw : I w) (d : Direction)
    (change : List (Message α) → List (Message α)) : Faithful I φ (·.modifyInbox pos d change) w :=
  h.faithful_here hw fun t => { t with inboxes := t.inboxes.modify d change }

theorem faithful_setMark (h : Unnoticed pos I φ) (hw : I w) (mark : Apoptosis) :
    Faithful I φ (·.setMark pos mark) w :=
  h.faithful_here hw fun t => { t with mark }

theorem faithful_sendResource (h : Unnoticed pos I φ) (hw : I w) (dir : Direction) (fraction : α) :
    Faithful I φ (·.sendResource pos dir fraction) w := by
  unfold sendResource
  by_cases hl : (w.tile (w.neighbor pos dir)).live = true
  · obtain ⟨hdebit, hw'⟩ := h.faithful_here hw
      fun t => { t with stockpile := ((w.tile pos).stockpile.requestFraction fraction).2 }
    obtain ⟨hcredit, hw''⟩ := h.faithful_there hw' dir fun t =>
      { t with
        stockpile :=
          t.stockpile.contribute ((w.tile pos).stockpile.requestFraction fraction).1 dir.opposite }
    constructor
    · simp only [h.neighbor, h.tile_there hw, h.tile_here hw, hl, if_true]
      simp only [modifyStockpile, hdebit]
      exact hcredit
    · simp only [hl, if_true]
      exact hw''
  · constructor
    · simp only [h.neighbor, h.tile_there hw, hl, Bool.false_eq_true, if_false]
    · simp only [hl, Bool.false_eq_true, if_false]
      exact hw

/-- A message to a neighbour is delivered in both worlds or in neither. -/
theorem faithful_sendExternal (h : Unnoticed pos I φ) (hw : I w) (facing dir : Direction)
    (affinity : Tag) (payload : Memory α) :
    Faithful I φ (·.sendExternal pos facing dir affinity payload) w := by
  unfold sendExternal
  by_cases hl : (w.tile (w.neighbor pos dir)).live = true
  · obtain ⟨hdeliver, hw'⟩ := h.faithful_there hw dir fun t =>
      { t with
        inboxes :=
          t.inboxes.modify dir.opposite (· ++ [⟨.external, affinity, payload, pos, facing⟩]) }
    constructor
    · simp only [h.neighbor, h.tile_there hw, hl, if_true]
      exact hdeliver
    · simp only [hl, if_true]
      exact hw'
  · constructor
    · simp only [h.neighbor, h.tile_there hw, hl, Bool.false_eq_true, if_false]
    · simp only [hl, Bool.false_eq_true, if_false]
      exact hw

theorem tryReproduce (h : Unnoticed pos I φ) (hw : I w) (facing : Direction) (relative : α)
    (level : Nat) (program : Program FrameOp) :
    ((φ w).tryReproduce pos facing relative level program).1 =
      (w.tryReproduce pos facing relative level program).1 ∧
    Faithful I φ (fun w => (w.tryReproduce pos facing relative level program).2) w := by
  have hlevel : (φ w).reproductionLevel? pos facing level = w.reproductionLevel? pos facing level := by
    simp only [reproductionLevel?, canAfford, controls, h.config, h.tile_here hw]
    congr
  have hrecord (dir : Direction) (used : Nat) : (φ w).record pos dir used = w.record pos dir used := by
    simp only [record, propagule, h.config, h.tile_here hw]
  unfold World.tryReproduce
  cases hl : w.reproductionLevel? pos facing level with
  | none =>
    refine ⟨?_, ?_, ?_⟩
    · simp only [hlevel, hl]
    · simp only [hlevel, hl]
    · simp only [hl]
      exact hw
  | some used =>
    obtain ⟨hdebit, hw'⟩ := h.faithful_here hw
      fun t => { t with stockpile := ((w.tile pos).stockpile.request w.config.repThresh).2 }
    obtain ⟨hreceive, hw''⟩ := h.faithful_there hw' (facing.turn relative) fun t =>
      { t with
        intake := t.intake ++ [⟨w.record pos (facing.turn relative) used, program,
          ((w.tile pos).stockpile.request w.config.repThresh).1⟩] }
    refine ⟨?_, ?_, ?_⟩
    · simp only [hlevel, hl]
    · simp only [hlevel, hl, hrecord, h.config, h.tile_here hw, h.neighbor]
      simp only [modifyStockpile, hdebit]
      exact hreceive
    · simp only [hl]
      exact hw''

end Unnoticed

end World

/-! ## Sensing -/

section

variable {pos : Nat} {I : World α → Prop} {φ : World α → World α} {w : World α}

theorem Sensor.here_unnoticed (h : World.Unnoticed pos I φ) (hw : I w) (facing : Direction) :
    (⟨φ w, pos, facing⟩ : Sensor α).here = (⟨w, pos, facing⟩ : Sensor α).here := h.tile_here hw

theorem Sensor.neighbor_unnoticed (h : World.Unnoticed pos I φ) (facing : Direction) (relative : α) :
    (⟨φ w, pos, facing⟩ : Sensor α).neighbor relative =
      (⟨w, pos, facing⟩ : Sensor α).neighbor relative := h.neighbor w _

theorem Sensor.there_unnoticed (h : World.Unnoticed pos I φ) (hw : I w) (facing : Direction)
    (relative : α) :
    (⟨φ w, pos, facing⟩ : Sensor α).there relative = (⟨w, pos, facing⟩ : Sensor α).there relative := by
  rw [there, neighbor_unnoticed h]
  exact h.tile_there hw _

/-- No trigger tells the worlds apart. -/
theorem Sensor.fired_unnoticed (h : World.Unnoticed pos I φ) (hw : I w) (facing : Direction)
    (tick : Tick) (chance : Bool) :
    (⟨φ w, pos, facing⟩ : Sensor α).fired tick chance =
      (⟨w, pos, facing⟩ : Sensor α).fired tick chance := by
  have houtcome (t : Trigger) : (⟨φ w, pos, facing⟩ : Sensor α).outcome tick chance t =
      (⟨w, pos, facing⟩ : Sensor α).outcome tick chance t := by
    cases t <;>
      simp only [outcome, isCellChild, isCellParent, isChannelMate, isPropaguleChild,
        isPropaguleParent, isLive, neighborIsPoorer, neighborIsOlder, neighborExpiration, topChannel,
        h.config, here_unnoticed h hw, neighbor_unnoticed h, there_unnoticed h hw]
    all_goals congr
  have hfires : (⟨φ w, pos, facing⟩ : Sensor α).fires tick chance =
      (⟨w, pos, facing⟩ : Sensor α).fires tick chance := by
    funext t
    simp only [fires, houtcome, h.triggerTags]
  simp only [fired, hfires, h.config]

namespace Call

variable {c : Call α}

/-- Queries are answered alike. -/
theorem ask_unnoticed (h : World.Unnoticed c.pos I φ) (hw : I w) (op : PlainAct) :
    c.ask op (φ w) = c.ask op w := by
  cases op <;>
    simp only [ask, sensor, Sensor.isLive, Sensor.isOccupied, Sensor.isCellChild,
      Sensor.isCellParent, Sensor.isPropaguleChild, Sensor.isPropaguleParent,
      Sensor.facingStockpile, Sensor.topChannel, h.config, Sensor.here_unnoticed h hw,
      Sensor.neighbor_unnoticed h, Sensor.there_unnoticed h hw]
  all_goals congr

theorem askAt_unnoticed (h : World.Unnoticed c.pos I φ) (hw : I w) (op : LeveledAct) (level : Nat) :
    c.askAt op level (φ w) = c.askAt op level w := by
  cases op <;>
    simp only [askAt, sensor, Sensor.isChannelMate, Sensor.facingChannel, Sensor.here_unnoticed h hw,
      Sensor.there_unnoticed h hw]
  all_goals congr

end Call

end

/-! ## Instructions -/

/-- What instructions act on, in the one world and in the other. -/
structure Surroundings.Twins (I : World α → Prop) (φ : World α → World α)
    (ρ : Membrane α → Membrane α → Prop) (s t : Surroundings α) : Prop where
  world : t.world = φ s.world
  kept : I s.world
  msgDir : t.msgDir = s.msgDir
  membrane : ρ s.membrane t.membrane

section

variable {pos : Nat} {I : World α → Prop} {φ : World α → World α}
  {ρ : Membrane α → Membrane α → Prop} {s t : Surroundings α}

namespace Surroundings.Twins

omit [Scalar α] in
theorem modifyWorld (h : Twins I φ ρ s t) {op : World α → World α}
    (hop : World.Faithful I φ op s.world) : Twins I φ ρ (s.modifyWorld op) (t.modifyWorld op) := by
  refine ⟨?_, hop.kept, h.msgDir, h.membrane⟩
  change op t.world = _
  rw [h.world]
  exact hop.commutes

theorem sendInternal (h : Twins I φ ρ s t) (hφ : World.Unnoticed pos I φ) (facing : Direction)
    (affinity : Tag) (payload : Memory α) (dir : Direction) :
    Twins I φ ρ (s.sendInternal pos facing affinity payload dir)
      (t.sendInternal pos facing affinity payload dir) := by
  obtain ⟨hworld, hkept, -, hmembrane⟩ := h.modifyWorld (hφ.faithful_here h.kept fun u =>
    { u with
      inboxes := u.inboxes.modify dir (· ++ [⟨.internal, affinity, payload, pos, facing⟩]) })
  exact ⟨hworld, hkept, rfl, hmembrane⟩

theorem sendExternal (h : Twins I φ ρ s t) (hφ : World.Unnoticed pos I φ) (facing : Direction)
    (affinity : Tag) (payload : Memory α) (dir : Direction) :
    Twins I φ ρ (s.sendExternal pos facing affinity payload dir)
      (t.sendExternal pos facing affinity payload dir) := by
  obtain ⟨hworld, hkept, -, hmembrane⟩ :=
    h.modifyWorld (hφ.faithful_sendExternal h.kept facing dir affinity payload)
  exact ⟨hworld, hkept, rfl, hmembrane⟩

omit [Scalar α] in
theorem foldl {f : Surroundings α → Direction → Surroundings α}
    (hf : ∀ d s t, Twins I φ ρ s t → Twins I φ ρ (f s d) (f t d)) (ds : List Direction)
    (h : Twins I φ ρ s t) : Twins I φ ρ (ds.foldl f s) (ds.foldl f t) := by
  induction ds generalizing s t with
  | nil => exact h
  | cons d rest ih => exact ih (hf d s t h)

theorem adjustReserve (h : Twins I φ ρ s t) (hφ : World.Unnoticed pos I φ) (dir : Direction)
    (delta : World α → α) (hd : delta (φ s.world) = delta s.world) :
    Twins I φ ρ (s.modifyWorld fun w => w.adjustReserve pos dir (delta w))
      (t.modifyWorld fun w => w.adjustReserve pos dir (delta w)) := by
  obtain ⟨hcommutes, hkept⟩ := hφ.faithful_here h.kept fun u =>
    { u with
      controls := u.controls.modify dir fun c =>
        { c with reserve := c.reserve.adjust (delta s.world) s.world.config.reserveDuration } }
  apply h.modifyWorld
  constructor
  · simp only [World.adjustReserve, hd, hφ.config]
    exact hcommutes
  · exact hkept

end Surroundings.Twins

namespace Call

variable {c : Call α}

/-- Whatever an instruction does, it does to both. -/
theorem act_twins (hφ : World.Unnoticed c.pos I φ) (hρ : Membrane.Twinning ρ)
    (h : s.Twins I φ ρ t) (op : PlainAct) : (c.act op s).Twins I φ ρ (c.act op t) := by
  have control (change : Controls α → Controls α) :
      (s.modifyWorld fun w => w.modifyControls c.pos c.dir change).Twins I φ ρ
        (t.modifyWorld fun w => w.modifyControls c.pos c.dir change) :=
    h.modifyWorld (hφ.faithful_modifyControls h.kept c.dir change)
  have hstep : (φ s.world).reserveStep = s.world.reserveStep := by
    rw [World.reserveStep, World.reserveStep, hφ.config]
  cases op with
  | sendMsgInternal => exact h.sendInternal hφ c.facing c.affinity c.outputs c.dir
  | bcstMsgInternal =>
    simp only [act]
    refine Surroundings.Twins.foldl (fun d s t hst => ?_) _ h
    exact hst.sendInternal hφ c.facing c.affinity c.outputs d
  | sendMsgExternal => exact h.sendExternal hφ c.facing c.affinity c.outputs c.dir
  | bcstMsgExternal =>
    simp only [act]
    refine Surroundings.Twins.foldl (fun d s t hst => ?_) _ h
    exact hst.sendExternal hφ c.facing c.affinity c.outputs d
  | incrStockpileReserve =>
    exact h.adjustReserve hφ c.dir (fun w => w.reserveStep) hstep
  | decrStockpileReserve =>
    exact h.adjustReserve hφ c.dir (fun w => 0 - w.reserveStep) (congrArg (0 - ·) hstep)
  | pauseReprAll => exact control (·.pauseAll)
  | resumeReprAll => exact control (·.resumeAll)
  | activateInbox => exact control (·.setInbox true)
  | deactivateInbox => exact control (·.setInbox false)
  | sendBigFracResource => exact h.modifyWorld (hφ.faithful_sendResource h.kept c.dir bigFraction)
  | sendSmallFracResource =>
    exact h.modifyWorld (hφ.faithful_sendResource h.kept c.dir smallFraction)
  | doApoptosisComplete => exact h.modifyWorld (hφ.faithful_setMark h.kept .completeDeath)
  | doApoptosisPartial => exact h.modifyWorld (hφ.faithful_setMark h.kept .partialDeath)
  | putMembraneBringer =>
    refine ⟨h.world, h.kept, h.msgDir, ?_⟩
    simp only [act, Membrane.registerBringer, h.world, hφ.config]
    exact hρ.register h.membrane _ _
  | putMembraneBlocker =>
    refine ⟨h.world, h.kept, h.msgDir, ?_⟩
    simp only [act, Membrane.registerBlocker, h.world, hφ.config]
    exact hρ.register h.membrane _ _
  | _ => exact h

theorem actAt_twins (hφ : World.Unnoticed c.pos I φ) (h : s.Twins I φ ρ t) (op : LeveledAct)
    (level : Nat) : (c.actAt op level s).Twins I φ ρ (c.actAt op level t) := by
  cases op with
  | pauseRepr => exact h.modifyWorld (hφ.faithful_modifyControls h.kept c.dir (·.pause level))
  | resumeRepr => exact h.modifyWorld (hφ.faithful_modifyControls h.kept c.dir (·.resume level))
  | tryReproduce =>
    exact h.modifyWorld (hφ.tryReproduce h.kept c.facing c.relative level c.program).2
  | incrCellAge =>
    exact h.modifyWorld (hφ.faithful_modifyChannel h.kept (·.incrementAge level (1 + c.relative)))
  | _ => exact h

end Call

/-- The host of a frame serves both worlds alike. -/
theorem environment_twins (hφ : World.Unnoticed pos I φ) (hρ : Membrane.Twinning ρ)
    (facing : Direction) (program : Program FrameOp) :
    (environment pos facing).Twins (environment pos facing) program (Surroundings.Twins I φ ρ) := by
  intro x site w s t _ h
  cases x with
  | plain op =>
    constructor
    · simp only [environment, h.world]
      rw [Call.ask_unnoticed hφ h.kept]
    · exact Call.act_twins hφ hρ h op
  | leveled op level =>
    constructor
    · simp only [environment, h.world]
      rw [Call.askAt_unnoticed hφ h.kept]
    · exact Call.actAt_twins hφ h op level

end

/-! ## Frames -/

/-- The frames differ in the handles of their machines, all of them shifted, and in membranes that cannot
be told apart. -/
structure Frame.Twin (k : Nat) (ρ : Membrane α → Membrane α → Prop) (f g : Frame α) : Prop where
  pos : g.pos = f.pos
  facing : g.facing = f.facing
  msgDir : g.msgDir = f.msgDir
  cpu : g.cpu = f.cpu.shift k
  membrane : ρ f.membrane g.membrane

namespace Frame

variable {k : Nat} {ρ : Membrane α → Membrane α → Prop} {f g : Frame α} {I : World α → Prop}
  {φ : World α → World α} {w : World α}

omit [Scalar α] in
theorem Twin.hasProgram (h : f.Twin k ρ g) : g.hasProgram = f.hasProgram := by
  rw [Frame.hasProgram, h.cpu]
  rfl

theorem Twin.setProgram (h : f.Twin k ρ g) (program : Program FrameOp) :
    (f.setProgram program).Twin k ρ (g.setProgram program) := by
  refine ⟨h.pos, h.facing, h.msgDir, ?_, h.membrane⟩
  simp only [Frame.setProgram, h.cpu, Machine.load_shift]

/-- Both frames read the same inbox. -/
theorem Twin.queueMessages (h : f.Twin k ρ g) (hρ : Membrane.Twinning ρ)
    (hφ : World.Unnoticed f.pos I φ) (hw : I w) :
    (f.queueMessages w).1.Twin k ρ (g.queueMessages (φ w)).1 ∧ I (f.queueMessages w).2 ∧
      (g.queueMessages (φ w)).2 = φ (f.queueMessages w).2 := by
  obtain ⟨hcommutes, hkept⟩ := hφ.faithful_modifyInbox hw f.facing fun _ => []
  have hadmits : g.membrane.admits = f.membrane.admits := funext (hρ.admits h.membrane)
  refine ⟨⟨h.pos, h.facing, h.msgDir, ?_, h.membrane⟩, hkept, ?_⟩
  · simp only [Frame.queueMessages, World.controls, World.inbox, h.pos, h.facing, hφ.tile_here hw,
      hadmits, h.cpu]
    rfl
  · simp only [Frame.queueMessages, h.pos, h.facing]
    exact hcommutes

/-- Both frames make the same of a pass. -/
theorem Twin.execute (h : f.Twin k ρ g) (hρ : Membrane.Twinning ρ)
    (hφ : World.Unnoticed f.pos I φ) (hw : I w) :
    (f.execute w).1.Twin k ρ (g.execute (φ w)).1 ∧ I (f.execute w).2 ∧
      (g.execute (φ w)).2 = φ (f.execute w).2 := by
  obtain ⟨hcpu, htwins⟩ := Machine.process_twins
    (environment_twins hφ hρ f.facing f.cpu.program)
    (s := ⟨w, f.membrane, f.msgDir⟩) (t := ⟨φ w, g.membrane, g.msgDir⟩)
    ⟨rfl, hw, h.msgDir, h.membrane⟩
  simp only [Frame.execute, h.pos, h.facing, h.cpu, Machine.process_shift]
  exact ⟨⟨rfl, rfl, htwins.msgDir, congrArg (·.shift k) hcpu, htwins.membrane⟩, htwins.kept,
    htwins.world⟩

theorem Twin.drawChance (h : f.Twin k ρ g) (config : Config α) :
    (g.drawChance config).1 = (f.drawChance config).1 ∧
      (f.drawChance config).2.Twin k ρ (g.drawChance config).2 := by
  have hrng : g.cpu.board.rng = f.cpu.board.rng := by
    rw [h.cpu]
    rfl
  refine ⟨?_, h.pos, h.facing, h.msgDir, ?_, h.membrane⟩
  · simp only [Frame.drawChance, hrng]
  · simp only [Frame.drawChance, hrng]
    rw [h.cpu]
    rfl

theorem Twin.excite (h : f.Twin k ρ g) (tags : List Tag) :
    (f.excite tags).Twin k ρ (g.excite tags) := by
  refine ⟨h.pos, h.facing, h.msgDir, ?_, h.membrane⟩
  simp only [Frame.excite, h.cpu, Machine.handle_shift]

theorem Twin.fade (h : f.Twin k ρ g) (hρ : Membrane.Twinning ρ) : f.fade.Twin k ρ g.fade := by
  refine ⟨h.pos, h.facing, h.msgDir, ?_, hρ.decay h.membrane⟩
  simp only [Frame.fade, h.cpu, Machine.setMatcher, Machine.shift, Board.shift,
    Registry.decayRegulators_shift]

theorem Twin.relent (h : f.Twin k ρ g) (hφ : World.Unnoticed f.pos I φ) (hw : I w) :
    g.relent (φ w) = φ (f.relent w) ∧ I (f.relent w) := by
  obtain ⟨hcommutes, hkept⟩ := hφ.faithful_modifyControls hw f.facing fun c =>
    { c with reserve := c.reserve.tryClear }.resumeAll
  refine ⟨?_, hkept⟩
  simp only [Frame.relent, h.pos, h.facing]
  exact hcommutes

/-- An environment pass fires the same tags. -/
theorem Twin.advanceEnvironment (h : f.Twin k ρ g) (hρ : Membrane.Twinning ρ)
    (hφ : World.Unnoticed f.pos I φ) (hw : I w) (tick : Tick) :
    (g.advanceEnvironment (φ w) tick).1 = (f.advanceEnvironment w tick).1 ∧
    (f.advanceEnvironment w tick).2.1.Twin k ρ (g.advanceEnvironment (φ w) tick).2.1 ∧
    I (f.advanceEnvironment w tick).2.2 ∧
    (g.advanceEnvironment (φ w) tick).2.2 = φ (f.advanceEnvironment w tick).2.2 := by
  unfold Frame.advanceEnvironment
  rw [hφ.config]
  by_cases hq : tick.qualifies w.config.envTrigFreq = true
  · obtain ⟨hchance, hdrawn⟩ := h.drawChance w.config
    have htags : ((g.drawChance w.config).2.sensor (φ w)).fired tick (g.drawChance w.config).1 =
        ((f.drawChance w.config).2.sensor w).fired tick (f.drawChance w.config).1 := by
      rw [hchance, Frame.sensor, hdrawn.pos, hdrawn.facing]
      exact Sensor.fired_unnoticed hφ hw _ _ _
    obtain ⟨hharvest, hw'⟩ := hφ.faithful_modifyStockpile hw (·.resetHarvests w.config.nlev)
    have hpos : (g.drawChance w.config).2.pos = f.pos := hdrawn.pos
    obtain ⟨hrelent, hkept⟩ := hdrawn.relent hφ hw'
    simp only [hq, if_true, htags, hpos, hharvest]
    exact ⟨trivial, (hdrawn.excite _).fade hρ, hkept, hrelent⟩
  · simp only [hq, Bool.false_eq_true, if_false]
    exact ⟨trivial, h, hw, trivial⟩

end Frame

end Vivarium
