import Vivarium.Proofs.Machine.Log
import Vivarium.Proofs.World.Sound
/-!
# Offers

A successful reproduction offers a sire to a tile. The offers that a frame makes in a pass are read
off the log of its machine, and an intake grows by the offers made to its tile, in the order in which
they were made, and by nothing else.
-/
namespace Vivarium

variable {α : Type} [Scalar α]

structure Offer (α : Type) where
  target : Nat
  sire : Sire α FrameOp

def offersTo (q : Nat) (offers : List (Offer α)) : List (Sire α FrameOp) :=
  (offers.filter (·.target = q)).map (·.sire)

omit [Scalar α] in
@[simp] theorem offersTo_nil (q : Nat) : offersTo q ([] : List (Offer α)) = [] := rfl

omit [Scalar α] in
@[simp] theorem offersTo_append (q : Nat) (offers more : List (Offer α)) :
    offersTo q (offers ++ more) = offersTo q offers ++ offersTo q more := by
  simp only [offersTo, List.filter_append, List.map_append]

omit [Scalar α] in
theorem offersTo_singleton (q : Nat) (o : Offer α) :
    offersTo q [o] = if o.target = q then [o.sire] else [] := by
  by_cases h : o.target = q
  · simp [offersTo, h]
  · simp [offersTo, h]

/-! ## Reproduction -/

namespace World

variable {w v : World α} {pos : Nat}

/-- The offer that a reproduction makes, if it takes place. -/
def offer? (w : World α) (pos : Nat) (facing : Direction) (relative : α) (level : Nat)
    (program : Program FrameOp) : Option (Offer α) :=
  (w.reproductionLevel? pos facing level).map fun used =>
    ⟨w.neighbor pos (facing.turn relative), w.record pos (facing.turn relative) used, program,
      (w.tile pos).stockpile.available w.config.repThresh⟩

/-- An offer names its parent and carries the parent's program. -/
theorem of_offer?_eq_some {facing : Direction} {relative : α} {level : Nat}
    {program : Program FrameOp} {o : Offer α}
    (h : w.offer? pos facing relative level program = some o) :
    o.sire.record.sourcePos = pos ∧ o.sire.program = program := by
  obtain ⟨used, -, rfl⟩ := Option.map_eq_some_iff.1 h
  exact ⟨rfl, rfl⟩

theorem intake_receive (w : World α) {target : Nat} (ht : target < w.size)
    (sire : Sire α FrameOp) (q : Nat) :
    ((w.receive target sire).tile q).intake =
      (w.tile q).intake ++ offersTo q [⟨target, sire⟩] := by
  rw [offersTo_singleton, receive, tile_modify]
  by_cases hq : q = target
  · rw [if_pos ⟨hq, ht⟩, if_pos hq.symm]
  · rw [if_neg fun h => hq h.1, if_neg (Ne.symm hq), List.append_nil]

/-- The offer goes behind the sires that wait at the target. -/
theorem intake_tryReproduce (facing : Direction) (relative : α) (level : Nat)
    (program : Program FrameOp) (ht : w.neighbor pos (facing.turn relative) < w.size) (q : Nat) :
    ((w.tryReproduce pos facing relative level program).2.tile q).intake =
      (w.tile q).intake ++ offersTo q (w.offer? pos facing relative level program).toList := by
  unfold tryReproduce offer?
  cases w.reproductionLevel? pos facing level with
  | none => exact (List.append_nil _).symm
  | some used =>
    exact (intake_receive _ (by rwa [modifyStockpile, size_modify]) _ q).trans
      (by rw [intake_modifyStockpile]; rfl)

theorem Effect.stays {facing : Direction} {program : Program FrameOp}
    (h : Effect pos facing program w v) : w.Stays v := by
  cases h with
  | send dir fraction => exact stays_sendResource w pos dir fraction
  | reproduce relative level => exact stays_tryReproduce w pos facing relative level program
  | _ => exact stays_modify _ _ _

theorem Stays.neighbor_lt (h : w.Stays v) (hw : w.Sound) (hp : pos < w.size) (dir : Direction) :
    v.neighbor pos dir < v.size := by
  rw [h.size, neighbor, h.grid]
  exact hw.neighbor_lt hp dir

end World

/-! ## Instructions -/

namespace Call

/-- An instruction without a level leaves every intake as it is. -/
theorem intake_act (c : Call α) (op : PlainAct) (s : Surroundings α) (q : Nat) :
    ((c.act op s).world.tile q).intake = (s.world.tile q).intake := by
  have inside (d : Direction) (t : Surroundings α)
      (h : (t.world.tile q).intake = (s.world.tile q).intake) :
      ((t.sendInternal c.pos c.facing c.affinity c.outputs d).world.tile q).intake =
        (s.world.tile q).intake := by
    rw [← h]
    exact World.intake_modify _ _ _ fun _ => rfl
  have outside (d : Direction) (t : Surroundings α)
      (h : (t.world.tile q).intake = (s.world.tile q).intake) :
      ((t.sendExternal c.pos c.facing c.affinity c.outputs d).world.tile q).intake =
        (s.world.tile q).intake := by
    rw [← h]
    simp only [Surroundings.sendExternal, World.sendExternal]
    split
    · exact World.intake_modify _ _ _ fun _ => rfl
    · rfl
  cases op with
  | bcstMsgInternal =>
    exact Surroundings.foldl_induction (I := fun w => (w.tile q).intake = (s.world.tile q).intake)
      inside _ s rfl
  | sendMsgExternal => exact outside c.dir s rfl
  | bcstMsgExternal =>
    exact Surroundings.foldl_induction (I := fun w => (w.tile q).intake = (s.world.tile q).intake)
      outside _ s rfl
  | sendBigFracResource => exact World.intake_sendResource _ _ _ _ q
  | sendSmallFracResource => exact World.intake_sendResource _ _ _ _ q
  | sendMsgInternal => exact inside c.dir s rfl
  | incrStockpileReserve | decrStockpileReserve | pauseReprAll | resumeReprAll
  | activateInbox | deactivateInbox | doApoptosisComplete | doApoptosisPartial =>
    exact World.intake_modify _ _ _ fun _ => rfl
  | _ => rfl

def offers (c : Call α) : FrameOp → World α → List (Offer α)
  | .leveled .tryReproduce level, w =>
    (w.offer? c.pos c.facing c.relative level c.program).toList
  | _, _ => []

theorem intake_actAt (c : Call α) (op : LeveledAct) (level : Nat) (s : Surroundings α)
    (hd : s.world.neighbor c.pos c.dir < s.world.size) (q : Nat) :
    ((c.actAt op level s).world.tile q).intake =
      (s.world.tile q).intake ++ offersTo q (c.offers (.leveled op level) s.world) := by
  cases op with
  | tryReproduce => exact World.intake_tryReproduce c.facing c.relative level c.program hd q
  | pauseRepr | resumeRepr | incrCellAge =>
    change _ = (s.world.tile q).intake ++ []
    rw [List.append_nil]
    exact World.intake_modify _ _ _ fun _ => rfl
  | queryChannelGen | queryFacingChannelMate | queryFacingChannel =>
    exact (List.append_nil _).symm

end Call

/-! ## Passes -/

/-- What a frame carries out for a thread. -/
def callOf (pos : Nat) (facing : Direction) (site : Site α FrameOp) (m : Scratch α) : Call α :=
  ⟨pos, facing, site.instruction.args.first, site.instruction.args.second,
    site.instruction.affinity, m.locals.read site.instruction.args.first, m.outputs, site.program⟩

namespace Frame

/-- The host of a frame, which logs the offers. -/
def offering (f : Frame α) : Host α FrameOp (Surroundings α × List (Offer α)) :=
  (environment f.pos f.facing).logged fun op site m s =>
    (callOf f.pos f.facing site m).offers op s.world

/-- The offers a frame makes in a pass of its machine, first made first. -/
def offers (f : Frame α) (w : World α) : List (Offer α) :=
  (f.cpu.process f.offering (⟨w, f.membrane, f.msgDir⟩, [])).2.2

/-- A pass is the same when its offers are logged. -/
theorem execute_eq (f : Frame α) (w : World α) :
    (f.execute w).2 = (f.cpu.process f.offering (⟨w, f.membrane, f.msgDir⟩, [])).2.1.world := by
  have h := f.cpu.process_logged (environment f.pos f.facing)
    (fun op site m s => (callOf f.pos f.facing site m).offers op s.world)
    (⟨w, f.membrane, f.msgDir⟩, [])
  exact congrArg (fun r => r.2.world) h

/-- A pass puts the offers made to a tile behind the sires that wait there. -/
theorem intake_execute (f : Frame α) {w : World α} (hw : w.Sound) (hp : f.pos < w.size) (q : Nat) :
    ((f.execute w).2.tile q).intake = (w.tile q).intake ++ offersTo q (f.offers w) := by
  rw [execute_eq]
  -- Along the pass, the log and the intake grow by the same sires.
  refine (Machine.host_process f.offering (I := fun s => w.Stays s.1.world ∧
    (s.1.world.tile q).intake = (w.tile q).intake ++ offersTo q s.2)
    (fun x site m s _ hs => ?_) (⟨w, f.membrane, f.msgDir⟩, [])
    ⟨.refl w, (List.append_nil _).symm⟩).2
  obtain ⟨hst, hin⟩ := hs
  cases x with
  | plain op =>
    refine ⟨hst.trans (Call.act_induction _ (fun _ _ he h => h.trans he.stays) op s.1 (.refl _)), ?_⟩
    change _ = _ ++ offersTo q (s.2 ++ [])
    rw [List.append_nil, ← hin]
    exact Call.intake_act _ op s.1 q
  | leveled op level =>
    refine ⟨hst.trans
      (Call.actAt_induction _ (fun _ _ he h => h.trans he.stays) op level s.1 (.refl _)), ?_⟩
    have hact := Call.intake_actAt (callOf f.pos f.facing site m) op level s.1
      (hst.neighbor_lt hw hp _) q
    rw [hin, List.append_assoc, ← offersTo_append] at hact
    exact hact

/-- Every offer of a pass comes from the tile of the frame and carries the program it runs. -/
theorem of_mem_offers (f : Frame α) (w : World α) :
    ∀ o ∈ f.offers w, o.sire.record.sourcePos = f.pos ∧ o.sire.program = f.cpu.program := by
  refine Machine.host_process f.offering (I := fun s => ∀ o ∈ s.2,
    o.sire.record.sourcePos = f.pos ∧ o.sire.program = f.cpu.program)
    (fun x site m s hp hs o ho => ?_) (⟨w, f.membrane, f.msgDir⟩, []) (by rintro o ⟨⟩)
  cases List.mem_append.1 ho with
  | inl ho => exact hs o ho
  | inr ho =>
    cases x with
    | plain op => cases ho
    | leveled op level =>
      cases op with
      | tryReproduce =>
        obtain ⟨hpos, hprogram⟩ := World.of_offer?_eq_some (Option.mem_toList.1 ho)
        exact ⟨hpos, hprogram.trans hp⟩
      | _ => cases ho

end Frame

end Vivarium
