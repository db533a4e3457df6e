import Vivarium.Proofs.Cell.Requests
import Vivarium.Proofs.Dish.LifeCycle
import Vivarium.Proofs.World.Shape
import Vivarium.Scalar.Binary64
/-!
# Succession

Loading a program into a cell, or resetting it, leaves nothing behind of what the cell was before. The
settings a frame was built with and its generator stay, and later handles; all else is as in a new cell,
and so are the controls and the inboxes on the tile. Whatever is asked of the cell from then on, the
answers are those of a new cell.
-/
namespace Vivarium

variable {α W : Type} [Scalar α] {config : Config α} {w : World α}

/-! ## What stays of a frame -/

/-- The frame was built so, whatever happened to it since. -/
structure Frame.BuiltAs (pos : Nat) (facing : Direction) (config : Config α) (f : Frame α) : Prop where
  pos_eq : f.pos = pos
  facing_eq : f.facing = facing
  cpu : f.cpu.BuiltWith config.limits (Scalar.within 1 config.affinityThreshold)
  membrane : f.membrane.registry.threshold = Scalar.within 1 config.affinityThreshold

theorem Membrane.threshold_register (m : Membrane α) (tag : Tag) (multiplicity : UInt32) :
    (m.register tag multiplicity).registry.threshold = m.registry.threshold := by
  unfold register
  cases hr : m.index[tag]?.bind fun h => m.registry.replace? h multiplicity with
  | none => rfl
  | some registry =>
    obtain ⟨h, -, hreplaced⟩ := Option.bind_eq_some_iff.1 hr
    exact Registry.threshold_modify? hreplaced

section

variable {θ : α}

/-- Instructions enter tags into the membrane, and change nothing else of it. -/
theorem Call.threshold_act (c : Call α) (op : PlainAct) (s : Surroundings α)
    (h : s.membrane.registry.threshold = θ) : (c.act op s).membrane.registry.threshold = θ := by
  cases op with
  | bcstMsgInternal | bcstMsgExternal =>
    simp only [act]
    exact List.foldlRecOn _ _
      (motive := fun s : Surroundings α => s.membrane.registry.threshold = θ) h fun s hs d _ => hs
  | putMembraneBringer | putMembraneBlocker => exact (s.membrane.threshold_register _ _).trans h
  | _ => exact h

theorem Call.threshold_actAt (c : Call α) (op : LeveledAct) (level : Nat) (s : Surroundings α)
    (h : s.membrane.registry.threshold = θ) :
    (c.actAt op level s).membrane.registry.threshold = θ := by
  cases op with
  | _ => exact h

/-- No pass moves the threshold of a membrane. -/
theorem Frame.threshold_execute {f : Frame α} (h : f.membrane.registry.threshold = θ) (w : World α) :
    (f.execute w).1.membrane.registry.threshold = θ := by
  refine Machine.host_process (environment f.pos f.facing)
    (I := fun s => s.membrane.registry.threshold = θ) (fun x site m s _ hs => ?_)
    ⟨w, f.membrane, f.msgDir⟩ h
  cases x with
  | plain op => exact Call.threshold_act _ op s hs
  | leveled op level => exact Call.threshold_actAt _ op level s hs

end

namespace Frame

variable {pos : Nat} {facing : Direction} {f : Frame α}

theorem builtAs_build (pos : Nat) (facing : Direction) (config : Config α) (rng : Generator) :
    (build pos facing config rng).BuiltAs pos facing config := ⟨rfl, rfl, ⟨rfl, rfl⟩, rfl⟩

theorem BuiltAs.setProgram (h : f.BuiltAs pos facing config) (program : Program FrameOp) :
    (f.setProgram program).BuiltAs pos facing config :=
  ⟨h.pos_eq, h.facing_eq, h.cpu.load program, h.membrane⟩

theorem BuiltAs.blank (h : f.BuiltAs pos facing config) : f.blank.BuiltAs pos facing config :=
  ⟨h.pos_eq, h.facing_eq, ⟨h.cpu.limits_eq, h.cpu.threshold_eq⟩, h.membrane⟩

theorem BuiltAs.advanceEnvironment (h : f.BuiltAs pos facing config) (w : World α) (tick : Tick) :
    (f.advanceEnvironment w tick).2.1.BuiltAs pos facing config := by
  unfold Frame.advanceEnvironment
  split
  · have hdrawn : (f.drawChance w.config).2.cpu.BuiltWith config.limits
        (Scalar.within 1 config.affinityThreshold) := ⟨h.cpu.limits_eq, h.cpu.threshold_eq⟩
    obtain ⟨hlimits, hthreshold⟩ := hdrawn.handle
      ((((f.drawChance w.config).2.sensor w).fired tick (f.drawChance w.config).1).map
        fun tag => ⟨tag, .empty⟩)
    exact ⟨h.pos_eq, h.facing_eq, ⟨hlimits, hthreshold⟩, h.membrane⟩
  · exact h

theorem BuiltAs.queueMessages (h : f.BuiltAs pos facing config) (w : World α) :
    (f.queueMessages w).1.BuiltAs pos facing config :=
  ⟨h.pos_eq, h.facing_eq, ⟨h.cpu.limits_eq, h.cpu.threshold_eq⟩, h.membrane⟩

theorem BuiltAs.execute (h : f.BuiltAs pos facing config) (w : World α) :
    (f.execute w).1.BuiltAs pos facing config :=
  ⟨h.pos_eq, h.facing_eq, h.cpu.process _ _, threshold_execute h.membrane w⟩

/-- What a frame was built with outlasts every request. -/
theorem BuiltAs.respond (h : f.BuiltAs pos facing config) (w : World α) (r : Request α W) :
    (f.respond w r).2.1.BuiltAs pos facing config := by
  cases r with
  | setProgram program => exact h.setProgram program
  | reset => exact h.blank
  | advanceEnvironment tick => exact h.advanceEnvironment w tick
  | queueMessages => exact h.queueMessages w
  | stepOnce =>
    simp only [Frame.respond, stepOnce]
    by_cases hp : f.hasProgram = true
    · simp only [hp, if_true]
      exact h.execute w
    · simp only [hp, Bool.false_eq_true, if_false]
      exact h
  | register tag multiplicity =>
    exact ⟨h.pos_eq, h.facing_eq, h.cpu, (f.membrane.threshold_register _ _).trans h.membrane⟩
  | decayMembrane => exact ⟨h.pos_eq, h.facing_eq, h.cpu, h.membrane⟩
  | clearMembrane => exact ⟨h.pos_eq, h.facing_eq, h.cpu, h.membrane⟩
  | _ => exact h

/-- A frame that was reset is a new one but for handles. -/
theorem BuiltAs.alike_blank (h : f.BuiltAs pos facing config) :
    (build pos facing config f.cpu.board.rng).Alike f.blank := by
  refine ⟨f.cpu.board.matcher.next, f.membrane.registry.next, h.pos_eq, h.facing_eq, h.facing_eq, ?_,
    ?_, fun tag => ?_⟩
  · have hmatcher : f.cpu.board.matcher.clear =
        (Registry.empty config.limits.threshold).shift f.cpu.board.matcher.next :=
      f.cpu.board.matcher.clear_eq_shift rfl rfl h.cpu.threshold_eq
    have hcpu : f.blank.cpu = ⟨.none, ⟨f.cpu.board.matcher.clear, .empty, [], f.cpu.board.rng⟩, [], [],
        f.cpu.limits⟩ := rfl
    rw [hcpu, hmatcher, h.cpu.limits_eq]
    rfl
  · exact f.membrane.registry.clear_eq_shift rfl rfl h.membrane
  · simp only [Frame.blank, Frame.build, Membrane.clear, Membrane.empty, Std.HashMap.getElem?_empty,
      Option.map_none]

end Frame

/-! ## What stays of a cell -/

namespace Cell

/-- Frames without a program, on the given generators. -/
def fresh (pos : Nat) (config : Config α) (rngs : PerFacing Generator) : Cell α :=
  ⟨pos, .ofFn fun d => .build pos d config (rngs.get d)⟩

/-- The cell was built for the configuration, and has been through any requests in any worlds. -/
def Lived (config : Config α) (c : Cell α) : Prop :=
  ∃ (W : Type) (pos : Nat) (rngs : PerFacing Generator) (past : List (Request α W)) (w : World α),
    (converse past (fresh pos config rngs) w).2.1 = c

/-- A new cell in the same place, on the generators as they are now. -/
def anew (config : Config α) (c : Cell α) : Cell α :=
  fresh c.pos config (c.frames.map (·.cpu.board.rng))

def BuiltAs (config : Config α) (c : Cell α) : Prop :=
  ∀ d, (c.frames.get d).BuiltAs c.pos d config

variable {c : Cell α}

theorem builtAs_fresh (pos : Nat) (config : Config α) (rngs : PerFacing Generator) :
    (fresh pos config rngs).BuiltAs config := by
  intro d
  rw [fresh, PerFacing.get_ofFn]
  exact Frame.builtAs_build pos d config _

theorem BuiltAs.placed (h : c.BuiltAs config) : c.Placed := fun d => ⟨(h d).pos_eq, (h d).facing_eq⟩

theorem BuiltAs.setFrame (h : c.BuiltAs config) {d : Direction} {f : Frame α}
    (hf : f.BuiltAs c.pos d config) : (c.setFrame d f).BuiltAs config := by
  intro b
  by_cases hb : b = d
  · subst hb
    rw [Cell.setFrame, PerFacing.set, PerFacing.get_modify_same]
    exact hf
  · rw [Cell.setFrame, PerFacing.set, PerFacing.get_modify_other _ _ hb]
    exact h b

theorem BuiltAs.walk {σ : Type} (h : c.BuiltAs config) (visit : Frame α → σ → Frame α × σ)
    (hv : ∀ d f s, f.BuiltAs c.pos d config → (visit f s).1.BuiltAs c.pos d config) (s : σ) :
    Cell.BuiltAs config { c with frames := (c.frames.walk visit s).1 } := by
  have hwalk := PerFacing.walk_induction (f := visit) (P := fun d f => f.BuiltAs c.pos d config)
    (I := fun _ => True) (fun d f s hf _ => ⟨hv d f s hf, trivial⟩) c.frames h s trivial
  exact hwalk.1

theorem BuiltAs.stepFrames (ds : List Direction) (h : c.BuiltAs config) (w : World α) :
    (Cell.stepFrames ds c w).2.1.BuiltAs config := by
  induction ds generalizing c w with
  | nil => exact h
  | cons d rest ih =>
    simp only [Cell.stepFrames, Frame.stepOnce]
    by_cases hp : (c.frame d).hasProgram = true
    · simp only [hp, if_true]
      exact ih (h.setFrame ((h d).execute w)) _
    · simp only [hp, Bool.false_eq_true, if_false]
      exact h

/-- No request changes what a cell was built as. -/
theorem BuiltAs.respond (h : c.BuiltAs config) (w : World α) (r : Request α W) :
    (c.respond w r).2.1.BuiltAs config := by
  cases r with
  | load program =>
    exact h.walk (fun f w => ((f.reset w).1.setProgram program, (f.reset w).2))
      (fun d f w hf => hf.blank.setProgram program) w
  | reset => exact h.walk Frame.reset (fun d f w hf => hf.blank) w
  | advanceEnvironment tick =>
    exact h.walk
      (fun f (s : List Tag × World α) => ((f.advanceEnvironment s.2 tick).2.1,
        s.1 ++ (f.advanceEnvironment s.2 tick).1, (f.advanceEnvironment s.2 tick).2.2))
      (fun d f s hf => hf.advanceEnvironment s.2 tick) ([], w)
  | queueMessages => exact h.walk Frame.queueMessages (fun d f w hf => hf.queueMessages w) w
  | stepOnce => exact h.stepFrames Direction.all w
  | frame d r => exact h.setFrame ((h d).respond w r)
  | meanwhile change => exact h

theorem BuiltAs.converse (rs : List (Request α W)) (h : c.BuiltAs config) (w : World α) :
    (Cell.converse rs c w).2.1.BuiltAs config := by
  induction rs generalizing c w with
  | nil => exact h
  | cons r rest ih => exact ih (h.respond w r) _

theorem Lived.builtAs (h : c.Lived config) : c.BuiltAs config := by
  obtain ⟨W, pos, rngs, past, w, rfl⟩ := h
  exact (builtAs_fresh pos config rngs).converse past w

end Cell

/-! ## What stays on the tile -/

namespace World

/-- New controls and empty inboxes at a place. -/
def ready (w : World α) (pos : Nat) : World α :=
  w.modify pos fun t =>
    { t with controls := .replicate (.new w.config.nlev), inboxes := .replicate [] }

/-- The controls at a place have a flag for every level and one above. -/
def Fitted (w : World α) (pos : Nat) : Prop :=
  ∀ d, ((w.tile pos).controls.get d).paused.length = w.config.nlev + 1

/-- They do in every world that can be brought about. -/
theorem Run.fitted {config : Config α} (h : Run config w) (pos : Nat) : w.Fitted pos := by
  intro d
  rw [h.shaped.config_eq]
  exact (h.shaped.tiles pos).paused d

theorem Fitted.ready {pos : Nat} (h : w.Fitted pos) : (w.ready pos).Fitted pos := by
  intro d
  rw [World.ready, tile_modify]
  split
  · rw [PerFacing.get_replicate]
    exact List.length_replicate
  · exact h d

theorem ready_ready (w : World α) (pos : Nat) : (w.ready pos).ready pos = w.ready pos :=
  w.modify_modify pos _ _

end World

namespace Cell

variable {c : Cell α}

/-- To the world a reset means new controls and empty inboxes. -/
theorem snd_reset (hc : c.Placed) (hw : w.Fitted c.pos) : (c.reset w).2 = w.ready c.pos := by
  have hframe (f : Frame α) (v : World α) : (f.reset v).2 = v.modify f.pos fun t =>
      { t with
        controls := t.controls.modify f.facing (·.reset)
        inboxes := t.inboxes.modify f.facing fun _ => [] } := v.modify_modify f.pos _ _
  obtain ⟨hp₀, hf₀⟩ := hc 0
  obtain ⟨hp₁, hf₁⟩ := hc 1
  obtain ⟨hp₂, hf₂⟩ := hc 2
  obtain ⟨hp₃, hf₃⟩ := hc 3
  simp only [PerFacing.get] at hp₀ hf₀ hp₁ hf₁ hp₂ hf₂ hp₃ hf₃
  simp only [reset, sweep, PerFacing.walk, hframe, hp₀, hf₀, hp₁, hf₁, hp₂, hf₂, hp₃, hf₃,
    World.modify_modify]
  refine World.modify_congr ?_
  have hcontrols : (w.tile c.pos).controls.map (·.reset) = .replicate (.new w.config.nlev) :=
    PerFacing.ext_get fun d => by
      rw [PerFacing.get_map, PerFacing.get_replicate, Controls.reset_eq_new (hw d)]
  rw [← hcontrols]
  rfl

theorem snd_load (hc : c.Placed) (hw : w.Fitted c.pos) (program : Program FrameOp) :
    (c.load program w).2 = w.ready c.pos := snd_reset hc hw

/-- Frames that were reset are new ones but for handles. -/
theorem BuiltAs.alike_anew (h : c.BuiltAs config) (d : Direction) :
    ((c.anew config).frames.get d).Alike (c.frames.get d).blank := by
  rw [anew, fresh, PerFacing.get_ofFn, PerFacing.get_map]
  exact (h d).alike_blank

/-- A cell that is reset differs from a new one in its handles only. -/
theorem BuiltAs.alike_reset (h : c.BuiltAs config) (w : World α) :
    (c.anew config).Alike (c.reset w).1 := by
  refine ⟨rfl, fun d => ?_⟩
  have hframes : (c.reset w).1.frames = c.frames.map (·.blank) := rfl
  rw [hframes, PerFacing.get_map]
  exact h.alike_anew d

/-- After a load the same holds, whatever the two worlds were. -/
theorem BuiltAs.alike_load (h : c.BuiltAs config) (program : Program FrameOp) (v w : World α) :
    ((c.anew config).load program v).1.Alike (c.load program w).1 := by
  refine ⟨rfl, fun d => ?_⟩
  have hframes (e : Cell α) (v : World α) :
      (e.load program v).1.frames = e.frames.map fun f => f.blank.setProgram program := rfl
  have hblank : ((c.anew config).frames.get d).blank = (c.anew config).frames.get d := by
    rw [anew, fresh, PerFacing.get_ofFn]
    rfl
  rw [hframes, hframes, PerFacing.get_map, PerFacing.get_map, hblank]
  exact (h.alike_anew d).setProgram program

/-- Whatever is asked of the cell in its world, the other one gives the same answers in its world, and the
worlds come out the same. -/
def Indistinct (c e : Cell α × World α) : Prop :=
  ∀ (W : Type) (requests : List (Request α W)),
    (converse requests c.1 c.2).1 = (converse requests e.1 e.2).1 ∧
      (converse requests c.1 c.2).2.2 = (converse requests e.1 e.2).2.2

/-- A difference in handles never shows in an answer. -/
theorem Alike.indistinct {e : Cell α} (h : c.Alike e) (w : World α) :
    Indistinct (e, w) (c, w) := fun _ requests => h.converse requests w

/-- However a cell has lived, once a program is loaded it is like a new cell on a new tile, into which
the same program was loaded; and once it is reset it is like a new cell on a new tile. All that is asked
of the world is what `World.Run.fitted` says of every world that can be brought about. -/
theorem succession (hc : c.Lived config) (hw : w.Fitted c.pos) :
    (∀ program, Indistinct (c.load program w)
      ((c.anew config).load program (w.ready c.pos))) ∧
    Indistinct (c.reset w) (c.anew config, w.ready c.pos) := by
  have hbuilt := hc.builtAs
  have hreset : (c.reset w).2 = w.ready c.pos := snd_reset hbuilt.placed hw
  constructor
  · intro program
    have hload : (c.load program w).2 = w.ready c.pos := snd_load hbuilt.placed hw program
    have hanew : ((c.anew config).load program (w.ready c.pos)).2 = w.ready c.pos :=
      (snd_load (builtAs_fresh c.pos config _).placed hw.ready program).trans (w.ready_ready c.pos)
    have halike := (hbuilt.alike_load program (w.ready c.pos) w).indistinct (w.ready c.pos)
    rw [← Prod.eta (c.load program w), ← Prod.eta ((c.anew config).load program (w.ready c.pos)),
      hload, hanew]
    exact halike
  · rw [← Prod.eta (c.reset w), hreset]
    exact (hbuilt.alike_reset w).indistinct (w.ready c.pos)

def plot : Config Float := { Config.withLevels 2 10 with gridWidth := 1, gridHeight := 1 }

/-- Writes to the shared memory, shuts the inbox ahead and stops reproduction. -/
def squatter : Program FrameOp :=
  ⟨[⟨.new 0, [⟨.builtin .inc, ⟨1, 0, 0⟩, .new 0⟩, ⟨.builtin .commit, ⟨1, 5, 0⟩, .new 0⟩,
    .bare (.ext (.plain .deactivateInbox)), .bare (.ext (.plain .pauseReprAll)),
    .bare (.builtin .nop)]⟩]⟩

/-- A tag is registered, the triggers start threads, and every thread takes four steps. -/
def tenancy : List (Request Float Nat) :=
  [.load squatter, .frame .up (.register (.new 3) 5), .advanceEnvironment .zero, .stepOnce, .stepOnce,
    .stepOnce, .stepOnce]

/-- Nothing of the squatter is left. -/
theorem succession_squatter : ∃ (c : Cell Float) (w : World Float), c.Lived plot ∧ w.Fitted c.pos ∧
    ((c.frame .up).cpu.board.shared.get? 5).isSome = true ∧ (c.frame .up).cpu.threadCount ≠ 0 ∧
    (w.controls c.pos .up).inboxActive = false ∧
    (∀ program, Indistinct (c.load program w) ((c.anew plot).load program (w.ready c.pos))) ∧
    Indistinct (c.reset w) (c.anew plot, w.ready c.pos) := by
  have hrun : yields (World.new plot) (fun w₀ =>
      let r := converse tenancy (fresh 0 plot (.ofFn fun d => .ofSeed d.val.toUInt64)) w₀
      decide ((∀ d, ((r.2.2.tile r.2.1.pos).controls.get d).paused.length = r.2.2.config.nlev + 1) ∧
        ((r.2.1.frame .up).cpu.board.shared.get? 5).isSome = true ∧
        (r.2.1.frame .up).cpu.threadCount ≠ 0 ∧
        (r.2.2.controls r.2.1.pos .up).inboxActive = false)) = true := by decide +kernel
  obtain ⟨w₀, -, h⟩ := of_yields hrun
  obtain ⟨hfitted, hshared, hthreads, hinbox⟩ := of_decide_eq_true h
  have hlived : Lived plot
      (converse tenancy (fresh 0 plot (.ofFn fun d => .ofSeed d.val.toUInt64)) w₀).2.1 :=
    ⟨Nat, 0, _, tenancy, w₀, rfl⟩
  obtain ⟨hload, hreset⟩ := succession hlived hfitted
  exact ⟨_, _, hlived, hfitted, hshared, hthreads, hinbox, hload, hreset⟩

end Cell

end Vivarium
