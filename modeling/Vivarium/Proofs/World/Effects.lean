import Vivarium.Frame.Execution
import Vivarium.Proofs.Machine.Run
/-!
# Effects of a frame on the world

Whatever program a frame runs, its instructions reach the world in seven ways. What survives each of
them survives a whole pass of the frame's machine.
-/
namespace Vivarium

variable {α : Type} [Scalar α]

/-- What becomes of controls: as many levels can be paused as before, and the reserve is what it was, or
nothing, or has been set. -/
structure Controls.Tended (c d : Controls α) : Prop where
  paused : d.paused.length = c.paused.length
  reserve : d.reserve.amount = c.reserve.amount ∨ d.reserve.amount = 0 ∨
    ∃ amount duration, d.reserve = .set amount duration

/-- The ways in which an instruction of a frame at `pos` changes the world. -/
inductive World.Effect (pos : Nat) (facing : Direction) (program : Program FrameOp) (w : World α) :
    World α → Prop where
  | control (dir : Direction) (change : Controls α → Controls α) :
      (∀ c : Controls α, c.Tended (change c)) →
      World.Effect pos facing program w (w.modifyControls pos dir change)
  | mailInside (dir : Direction) (m : Message α) :
      World.Effect pos facing program w (w.deliver pos dir m)
  | mailOut (dir : Direction) (m : Message α) : (w.tile (w.neighbor pos dir)).live = true →
      World.Effect pos facing program w (w.deliver (w.neighbor pos dir) dir.opposite m)
  | send (dir : Direction) (fraction : α) :
      World.Effect pos facing program w (w.sendResource pos dir fraction)
  | reproduce (relative : α) (level : Nat) :
      World.Effect pos facing program w (w.tryReproduce pos facing relative level program).2
  | age (level : Nat) (delta : α) :
      World.Effect pos facing program w (w.modifyChannel pos (·.incrementAge level delta))
  | mark (mark : Apoptosis) : World.Effect pos facing program w (w.setMark pos mark)

section

variable {pos : Nat} {facing : Direction} {program : Program FrameOp} {I : World α → Prop}

theorem Surroundings.sendExternal_induction
    (hI : ∀ w w', World.Effect pos facing program w w' → I w → I w') (affinity : Tag)
    (payload : Memory α) (dir : Direction) (s : Surroundings α) (h : I s.world) :
    I (s.sendExternal pos facing affinity payload dir).world := by
  by_cases hl : (s.world.tile (s.world.neighbor pos dir)).live = true
  · simp only [sendExternal, World.sendExternal, hl, if_true]
    exact hI _ _ (.mailOut dir _ hl) h
  · simp only [sendExternal, World.sendExternal, hl]
    exact h

omit [Scalar α] in
/-- What survives every step of a fold survives the fold. -/
theorem Surroundings.foldl_induction {f : Surroundings α → Direction → Surroundings α}
    (hf : ∀ d s, I s.world → I (f s d).world) (ds : List Direction) (s : Surroundings α)
    (h : I s.world) : I (ds.foldl f s).world := by
  induction ds generalizing s with
  | nil => exact h
  | cons d rest ih => exact ih _ (hf d s h)

/-- Whatever outlasts every effect outlasts an instruction. -/
theorem Call.act_induction (c : Call α)
    (hI : ∀ w w', World.Effect c.pos c.facing c.program w w' → I w → I w') (op : PlainAct)
    (s : Surroundings α) (h : I s.world) : I (c.act op s).world := by
  have inside (d : Direction) (s : Surroundings α) (h : I s.world) :
      I (s.sendInternal c.pos c.facing c.affinity c.outputs d).world :=
    hI _ _ (.mailInside d _) h
  have outside (d : Direction) (s : Surroundings α) (h : I s.world) :
      I (s.sendExternal c.pos c.facing c.affinity c.outputs d).world :=
    s.sendExternal_induction hI c.affinity c.outputs d h
  have control (change : Controls α → Controls α)
      (hc : ∀ c : Controls α, c.Tended (change c)) :
      I (s.world.modifyControls c.pos c.dir change) := hI _ _ (.control c.dir change hc) h
  cases op with
  | sendMsgInternal => exact inside c.dir s h
  | bcstMsgInternal => exact Surroundings.foldl_induction inside _ s h
  | sendMsgExternal => exact outside c.dir s h
  | bcstMsgExternal => exact Surroundings.foldl_induction outside _ s h
  | incrStockpileReserve => exact control _ fun _ => ⟨rfl, .inr (.inr ⟨_, _, rfl⟩)⟩
  | decrStockpileReserve => exact control _ fun _ => ⟨rfl, .inr (.inr ⟨_, _, rfl⟩)⟩
  | pauseReprAll => exact control _ fun _ => ⟨List.length_map _, .inl rfl⟩
  | resumeReprAll => exact control _ fun _ => ⟨List.length_map _, .inl rfl⟩
  | activateInbox => exact control _ fun _ => ⟨rfl, .inl rfl⟩
  | deactivateInbox => exact control _ fun _ => ⟨rfl, .inl rfl⟩
  | sendBigFracResource => exact hI _ _ (.send c.dir _) h
  | sendSmallFracResource => exact hI _ _ (.send c.dir _) h
  | doApoptosisComplete => exact hI _ _ (.mark _) h
  | doApoptosisPartial => exact hI _ _ (.mark _) h
  | _ => exact h

theorem Call.actAt_induction (c : Call α)
    (hI : ∀ w w', World.Effect c.pos c.facing c.program w w' → I w → I w') (op : LeveledAct)
    (level : Nat) (s : Surroundings α) (h : I s.world) : I (c.actAt op level s).world := by
  cases op with
  | pauseRepr => exact hI _ _ (.control c.dir _ fun _ => ⟨List.length_modify _ _ _, .inl rfl⟩) h
  | resumeRepr => exact hI _ _ (.control c.dir _ fun _ => ⟨List.length_modify _ _ _, .inl rfl⟩) h
  | tryReproduce => exact hI _ _ (.reproduce c.relative level) h
  | incrCellAge => exact hI _ _ (.age level _) h
  | _ => exact h

/-- What survives every effect of a frame survives a pass of its machine. -/
theorem Frame.execute_induction (f : Frame α)
    (hI : ∀ w w', World.Effect f.pos f.facing f.cpu.program w w' → I w → I w') (w : World α)
    (h : I w) : I (f.execute w).2 := by
  refine Machine.host_process (environment f.pos f.facing) (I := fun s => I s.world)
    (fun x site m s hp hs => ?_) ⟨w, f.membrane, f.msgDir⟩ h
  cases x with
  | plain op => exact Call.act_induction _ (hp ▸ hI) op s hs
  | leveled op level => exact Call.actAt_induction _ (hp ▸ hI) op level s hs

end

end Vivarium
