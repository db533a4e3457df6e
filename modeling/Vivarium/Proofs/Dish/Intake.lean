import Mathlib.Algebra.BigOperators.Group.List.Basic
import Vivarium.Proofs.Dish.Ledger
import Vivarium.Proofs.World.Visits
/-!
# What becomes of waiting sires

A step first visits every tile, and the cell of a sire that is settled there is loaded with its program.
The intakes are empty then, and fill again with the offers that the cells make during the rest of the
step.
-/
namespace Vivarium

variable {α : Type} [Scalar α] {w v : World α} {tick : Tick}

/-! ## Loading a program -/

/-- The cell as its tile's visit leaves it: with the program of the sire that is settled. -/
def Cell.house (c : Cell α) : Option (Sire α FrameOp) → Cell α
  | none => c
  | some sire => { c with frames := c.frames.map fun f => f.blank.setProgram sire.program }

/-- The frame has the program, and nothing else. -/
structure Frame.Loaded (f : Frame α) (program : Program FrameOp) : Prop where
  /-- Every function answers to its own tag. -/
  matcher : f.cpu.board.matcher.entries.map (fun e => (e.tag, e.value, e.regulator)) =
    program.functions.zipIdx.map fun p => (p.1.affinity, p.2, .neutral)
  program : f.cpu.program = program
  threads : f.cpu.threads = []
  events : f.cpu.events = []
  shared : f.cpu.board.shared = .empty
  membrane : f.membrane.isEmpty = true

theorem Registry.entries_foldl_insert {X V : Type} (items : List (Function X × V))
    (r : Registry α V) :
    (items.foldl (fun r p => (r.insert p.1.affinity p.2).2) r).entries.map
        (fun e => (e.tag, e.value, e.regulator)) =
      r.entries.map (fun e => (e.tag, e.value, e.regulator)) ++
        items.map fun p => (p.1.affinity, p.2, .neutral) := by
  induction items generalizing r with
  | nil => simp
  | cons p rest ih =>
    rw [List.foldl_cons, ih]
    simp [Registry.insert]

@[simp] theorem Cell.pos_house (c : Cell α) (sire? : Option (Sire α FrameOp)) :
    (c.house sire?).pos = c.pos := by
  cases sire? with
  | none => rfl
  | some sire => rfl

theorem Cell.loaded_house (c : Cell α) (sire : Sire α FrameOp) (d : Direction) :
    ((c.house (some sire)).frames.get d).Loaded sire.program := by
  rw [house, PerFacing.get_map]
  exact ⟨Registry.entries_foldl_insert _ _, rfl, rfl, rfl, rfl, rfl⟩

theorem PerFacing.modify_eq_self {β : Type} (q : PerFacing β) (d : Direction) {f : β → β}
    (h : f (q.get d) = q.get d) : q.modify d f = q := by
  match d with
  | 0 | 1 | 2 | 3 =>
    simp only [PerFacing.get] at h
    simp only [PerFacing.modify, h]

def Tile.IsTidy (t : Tile α) : Prop :=
  ∀ d, (t.controls.get d).reset = t.controls.get d ∧ t.inboxes.get d = []

theorem Controls.reset_reset (c : Controls α) : c.reset.reset = c.reset := by
  simp only [Controls.reset, Controls.resumeAll, List.map_map]
  rfl

theorem Tile.isTidy_occupy (t : Tile α) : t.occupy.IsTidy := by
  intro d
  simp only [occupy, tidy, PerFacing.get_map, PerFacing.get_replicate, Controls.reset_reset, and_self]

theorem Tile.Emptied.isTidy {t u : Tile α} (h : t.Emptied u) : u.IsTidy := by
  intro d
  rw [h.controls, h.inboxes, PerFacing.get_map, PerFacing.get_replicate, Controls.reset_reset]
  exact ⟨rfl, rfl⟩

/-- On a tidy tile a frame finds nothing to reset. -/
theorem Frame.reset_of_isTidy {f : Frame α} (h : (w.tile f.pos).IsTidy) : (f.reset w).2 = w := by
  obtain ⟨hcontrols, hinbox⟩ := h f.facing
  have hc : w.modifyControls f.pos f.facing (·.reset) = w :=
    World.modify_eq_self (by rw [PerFacing.modify_eq_self _ _ hcontrols])
  have hi : w.modifyInbox f.pos f.facing (fun _ => []) = w :=
    World.modify_eq_self (by rw [PerFacing.modify_eq_self _ _ hinbox.symm])
  rw [Frame.reset, hc, hi]

/-- A walk that leaves the state as it is. -/
theorem PerFacing.walk_eq_map {β σ : Type} (q : PerFacing β) (f : β → σ → β × σ) (s : σ)
    (h : ∀ d, (f (q.get d) s).2 = s) : q.walk f s = (q.map fun x => (f x s).1, s) := by
  have h₀ : (f q.up s).2 = s := h 0
  have h₁ : (f q.right s).2 = s := h 1
  have h₂ : (f q.down s).2 = s := h 2
  have h₃ : (f q.left s).2 = s := h 3
  simp only [walk, map, h₀, h₁, h₂, h₃]

namespace Cell

variable {c : Cell α}

theorem reset_of_isTidy (hc : c.Placed) (h : (w.tile c.pos).IsTidy) :
    c.reset w = ({ c with frames := c.frames.map (·.blank) }, w) := by
  have hwalk := c.frames.walk_eq_map Frame.reset w fun d =>
    Frame.reset_of_isTidy ((hc d).1.symm ▸ h)
  simp only [reset, sweep, hwalk]
  rfl

/-- On a tidy tile a load changes the cell only. -/
theorem load_of_isTidy (hc : c.Placed) (h : (w.tile c.pos).IsTidy) (program : Program FrameOp) :
    c.load program w = ({ c with frames := c.frames.map fun f => f.blank.setProgram program }, w) := by
  have hwalk := c.frames.walk_eq_map
    (fun f w => ((f.reset w).1.setProgram program, (f.reset w).2)) w fun d =>
      Frame.reset_of_isTidy ((hc d).1.symm ▸ h)
  simp only [load, sweep, hwalk]
  rfl

end Cell

namespace Dish

/-- One visit carries out the fates of the tile, and loads the program of the sire that is settled. -/
theorem takeIn_eq {c : Cell α} (hw : w.Sound) (hc : c.Placed) (hp : c.pos < w.size) (tick : Tick) :
    takeIn tick c w =
      .ok (⟨(w.tile c.pos).settles?.toList.length,
          if (w.tile c.pos).live then (w.tile c.pos).intake.length else 0⟩,
        c.house (w.tile c.pos).settles?, w.taken tick c.pos) := by
  unfold takeIn
  cases hl : (w.tile c.pos).live with
  | true =>
    have hsettles : (w.tile c.pos).settles? = none := by simp only [Tile.settles?, hl, if_true]
    have hturns : (w.tile c.pos).turnsAway = (w.tile c.pos).intake := by
      simp only [Tile.turnsAway, hl, if_true]
    rw [if_pos rfl, World.refundIntake_eq (hw.sources c.pos)]
    simp only [World.taken, hsettles, hturns]
    rfl
  | false =>
    cases hin : (w.tile c.pos).intake with
    | nil =>
      have hsettles : (w.tile c.pos).settles? = none := by simp [Tile.settles?, hl, hin]
      have hturns : (w.tile c.pos).turnsAway = [] := by simp [Tile.turnsAway, hl, hin]
      have hclear : w.clearIntake c.pos = w := World.modify_eq_self (by rw [← hin])
      simp only [World.taken, hsettles, hturns, hclear, Cell.settle, World.settleSire_nil hin]
      rfl
    | cons sire losers =>
      have hsettles : (w.tile c.pos).settles? = some sire := by simp [Tile.settles?, hl, hin]
      have hturns : (w.tile c.pos).turnsAway = losers := by simp [Tile.turnsAway, hl, hin]
      obtain ⟨stockpile, children, htile⟩ := World.tile_taken_same hw hp tick hsettles
      have htidy : ((w.taken tick c.pos).tile c.pos).IsTidy := htile ▸ Tile.isTidy_occupy _
      have htaken : w.taken tick c.pos =
          (losers.foldl World.credit (w.clearIntake c.pos)).install c.pos tick sire := by
        simp only [World.taken, hsettles, hturns, World.settled]
      have hsettle := World.settleSire_eq hin (fun s hs => hw.sources c.pos s (hin ▸ hs)) tick
      rw [← htaken] at hsettle
      have hcell : c.settle tick w = .ok (true, c.house (some sire), w.taken tick c.pos) := by
        simp only [Cell.settle, hsettle]
        change (pure (true, c.load sire.program (w.taken tick c.pos)) : Except Fault _) = _
        rw [Cell.load_of_isTidy hc htidy]
        rfl
      simp only [hsettles, hcell]
      rfl

/-! ## The sweep -/

/-- A sweep carries out the fates that the tiles had in mind for their sires at its start, in the
order of the cells. Earlier visits neither occupy later tiles nor touch their queues. -/
theorem intakePhase_eq {cells : List (Cell α)} (tick : Tick) (w₀ : World α) (hw : w.Sound)
    (hcells : ∀ c ∈ cells, c.Placed ∧ c.pos < w.size) (hnodup : (cells.map (·.pos)).Nodup)
    (hsame : ∀ c ∈ cells, (w.tile c.pos).live = (w₀.tile c.pos).live ∧
      (w.tile c.pos).intake = (w₀.tile c.pos).intake) :
    ∃ v, (cells.map (·.pos)).foldlM (fun u pos => u.dispose tick pos (w₀.tile pos).fates) w = .ok v ∧
      intakePhase tick cells w =
        .ok (⟨(cells.map fun c => (w₀.tile c.pos).settles?.toList.length).sum,
            (cells.map fun c =>
              if (w₀.tile c.pos).live then (w₀.tile c.pos).intake.length else 0).sum⟩,
          cells.map fun c => c.house (w₀.tile c.pos).settles?, v) := by
  -- `w₀` is the world before the sweep and stays; the tiles ahead still look as they do there.
  induction cells generalizing w with
  | nil => exact ⟨w, rfl, rfl⟩
  | cons c rest ih =>
    obtain ⟨hplaced, hp⟩ := hcells c List.mem_cons_self
    obtain ⟨hlive, hin⟩ := hsame c List.mem_cons_self
    obtain ⟨hnot, hnodup⟩ := List.nodup_cons.1 hnodup
    have htake := takeIn_eq hw hplaced hp tick
    have hdoes := takeIn_does hplaced hp htake
    obtain ⟨v, hfold, hphase⟩ := ih (hdoes.becomes.sound hw)
      (ready_tail hcells hdoes) hnodup fun e he => by
        have hne : e.pos ≠ c.pos := fun h => hnot (List.mem_map.2 ⟨e, he, h⟩)
        obtain ⟨stockpile, children, htile⟩ := World.akin_taken_other hw tick hne
        rw [htile]
        exact hsame e (List.mem_cons_of_mem c he)
    refine ⟨v, ?_, ?_⟩
    · rw [List.map_cons, List.foldlM_cons, ← Tile.fates_congr hlive hin, World.dispose_eq hw]
      exact hfold
    · rw [Tile.settles?_congr hlive hin, hlive, hin] at htake
      simp only [intakePhase, htake]
      change (intakePhase tick rest _ >>= _) = _
      rw [hphase]
      rfl

end Dish

/-! ## The offers of a step -/

namespace Cell

/-- The offers that the given frames make, each in one pass. -/
def offersOf : List Direction → Cell α → World α → List (Offer α)
  | [], _, _ => []
  | d :: rest, c, w =>
    match (c.frame d).stepOnce w with
    | .ok (f, v) => (c.frame d).offers w ++ offersOf rest (c.setFrame d f) v
    | .error _ => []

/-- The queues grow by what the frames offer, up to the first that refuses. -/
theorem intake_stepFrames {c : Cell α} (ds : List Direction) (hw : w.Sound) (hc : c.Placed)
    (hp : c.pos < w.size) (q : Nat) : ((stepFrames ds c w).2.2.tile q).intake =
      (w.tile q).intake ++ offersTo q (offersOf ds c w) := by
  induction ds generalizing c w with
  | nil => exact (List.append_nil _).symm
  | cons d rest ih =>
    unfold stepFrames offersOf
    cases hs : (c.frame d).stepOnce w with
    | error e => exact (List.append_nil _).symm
    | ok r =>
      obtain ⟨f, v⟩ := r
      obtain ⟨hpos, hfacing⟩ := hc d
      obtain ⟨hf, hd, rfl⟩ := of_stepOnce_eq_ok hs
      have hin : (c.frame d).pos < w.size := hpos.symm ▸ hp
      have hb : w.Becomes ((c.frame d).execute w).2 :=
        (World.Becomes.refl w).act (.execute (c.frame d)) hin rfl (by rw [Deed.act, hs])
      rw [ih (hb.sound hw) (setFrame_placed hc (hf.trans hpos) (hd.trans hfacing))
        (hb.size.symm ▸ hp), (c.frame d).intake_execute hw hin, offersTo_append, List.append_assoc]

theorem intake_advanceEnvironment (c : Cell α) (tick : Tick) (w : World α) (q : Nat) :
    ((c.advanceEnvironment tick w).2.2.tile q).intake = (w.tile q).intake :=
  (PerFacing.walk_induction
    (f := fun (f : Frame α) (s : List Tag × World α) => ((f.advanceEnvironment s.2 tick).2.1,
      s.1 ++ (f.advanceEnvironment s.2 tick).1, (f.advanceEnvironment s.2 tick).2.2))
    (P := fun _ _ => True) (I := fun s => (s.2.tile q).intake = (w.tile q).intake)
    (fun _ f s _ hs => ⟨trivial, (f.intake_advanceEnvironment s.2 tick q).trans hs⟩)
    c.frames (fun _ => trivial) ([], w) rfl).2

theorem intake_queueMessages (c : Cell α) (w : World α) (q : Nat) :
    ((c.queueMessages w).2.tile q).intake = (w.tile q).intake :=
  (PerFacing.walk_induction (f := Frame.queueMessages)
    (P := fun _ _ => True) (I := fun v => (v.tile q).intake = (w.tile q).intake)
    (fun _ f v _ hv => ⟨trivial, (f.intake_queueMessages v q).trans hv⟩)
    c.frames (fun _ => trivial) w rfl).2

theorem intake_reset (c : Cell α) (w : World α) (q : Nat) :
    ((c.reset w).2.tile q).intake = (w.tile q).intake :=
  (PerFacing.walk_induction (f := Frame.reset)
    (P := fun _ _ => True) (I := fun v => (v.tile q).intake = (w.tile q).intake)
    (fun _ f v _ hv => ⟨trivial, (f.intake_reset v q).trans hv⟩)
    c.frames (fun _ => trivial) w rfl).2

end Cell

namespace Dish

def ready (tick : Tick) (cell : Cell α) (w : World α) : Cell α × World α :=
  (cell.advanceEnvironment tick w).2.1.queueMessages (cell.advanceEnvironment tick w).2.2

def actOffers (tick : Tick) (cell : Cell α) (w : World α) : List (Offer α) :=
  if (w.tile cell.pos).live then
    (ready tick cell w).1.offersOf Direction.all (ready tick cell w).2
  else []

/-- The offers that the cells make in the second visit, first made first. -/
def phaseOffers (tick : Tick) : List (Cell α) → World α → List (Offer α)
  | [], _ => []
  | cell :: rest, w =>
    match act tick cell w with
    | .ok (_, v) => actOffers tick cell w ++ phaseOffers tick rest v
    | .error _ => []

def offers (d : Dish α) : List (Offer α) :=
  match intakePhase d.tick d.cells d.world with
  | .ok (_, cells, w) => phaseOffers d.tick cells w
  | .error _ => []

variable {c c' : Cell α} {cells cells' : List (Cell α)}

theorem ready_does (tick : Tick) (hc : c.Placed) (hp : c.pos < w.size) :
    c.Does w (ready tick c w).1 (ready tick c w).2 := by
  have henvironment := Cell.advanceEnvironment_does hc hp tick
  exact henvironment.trans (Cell.queueMessages_does henvironment.placed (henvironment.lt hp))

theorem intake_ready (tick : Tick) (c : Cell α) (w : World α) (q : Nat) :
    ((ready tick c w).2.tile q).intake = (w.tile q).intake :=
  (Cell.intake_queueMessages _ _ q).trans (c.intake_advanceEnvironment tick w q)

/-- The act of a living cell is one pass of its frames. -/
theorem act_eq (hl : (w.tile c.pos).live = true) : act tick c w =
    (Cell.stepFrames Direction.all (ready tick c w).1 (ready tick c w).2).1.elim
      (.ok (Cell.stepFrames Direction.all (ready tick c w).1 (ready tick c w).2).2) .error := by
  rcases hadvance : c.advanceEnvironment tick w with ⟨fired, c₁, w₁⟩
  rcases hread : c₁.queueMessages w₁ with ⟨c₂, w₂⟩
  rcases hsteps : Cell.stepFrames Direction.all c₂ w₂ with ⟨e, c₃, w₃⟩
  have hready : ready tick c w = (c₂, w₂) := by simp only [ready, hadvance, hread]
  simp only [act, hl, hready, hadvance, hread, Cell.stepOnce, hsteps, if_true]
  cases e with
  | none => rfl
  | some e => rfl

/-- A living cell that acts steps with all frames. -/
theorem of_act_eq_ok (hl : (w.tile c.pos).live = true) (h : act tick c w = .ok (c', v)) :
    Cell.stepFrames Direction.all (ready tick c w).1 (ready tick c w).2 = (none, c', v) := by
  rw [act_eq hl] at h
  cases he : (Cell.stepFrames Direction.all (ready tick c w).1 (ready tick c w).2).1 with
  | none =>
    rw [he] at h
    exact Prod.ext he (Except.ok.inj h)
  | some e =>
    rw [he] at h
    cases h

theorem intake_act (hw : w.Sound) (hc : c.Placed) (hp : c.pos < w.size)
    (h : act tick c w = .ok (c', v)) (q : Nat) :
    (v.tile q).intake = (w.tile q).intake ++ offersTo q (actOffers tick c w) := by
  unfold actOffers
  by_cases hl : (w.tile c.pos).live
  · have hready := ready_does tick hc hp
    have hstep := Cell.intake_stepFrames Direction.all (hready.becomes.sound hw) hready.placed
      (hready.lt hp) q
    rw [of_act_eq_ok hl h, intake_ready] at hstep
    rw [if_pos hl]
    exact hstep
  · rw [act, if_neg hl] at h
    cases h
    rw [if_neg hl]
    exact (List.append_nil _).symm

/-- The queues grow by what all cells offer, first made first. -/
theorem intake_actPhase (hw : w.Sound) (hc : ∀ c ∈ cells, c.Placed ∧ c.pos < w.size)
    (h : actPhase tick cells w = .ok (cells', v)) (q : Nat) :
    (v.tile q).intake = (w.tile q).intake ++ offersTo q (phaseOffers tick cells w) := by
  induction cells generalizing w cells' with
  | nil =>
    cases h
    exact (List.append_nil _).symm
  | cons c rest ih =>
    obtain ⟨hplaced, hp⟩ := hc c List.mem_cons_self
    obtain ⟨⟨c₁, u⟩, ht, h⟩ := bind_eq_ok h
    obtain ⟨⟨rest₁, v⟩, hr, h⟩ := bind_eq_ok h
    cases h
    have hdoes := act_does hplaced hp ht
    rw [ih (hdoes.becomes.sound hw) (ready_tail hc hdoes) hr, intake_act hw hplaced hp ht,
      List.append_assoc, ← offersTo_append]
    simp only [phaseOffers, ht]

/-- A cell that is not marked only grows older; one that is marked is emptied. -/
theorem retire_cases (hc : c.Placed) (hp : c.pos < w.size) :
    ((w.tile c.pos).mark = .unmarked ∧
        retire c w = (0, c, w.modifyChannel c.pos (·.advanceAges 1))) ∨
      ((w.tile c.pos).mark ≠ .unmarked ∧ ∃ change, (∀ t : Tile α, t.Emptied (change t)) ∧
        retire c w = (1, { c with frames := c.frames.map (·.blank) },
          (w.modify c.pos change).modifyChannel c.pos (·.advanceAges 1))) := by
  unfold retire
  rcases w.applyApoptosis_cases c.pos with ⟨hm, he⟩ | ⟨hm, change, hempty, he⟩
  · rw [he]
    exact .inl ⟨hm, rfl⟩
  · have htidy : ((w.modify c.pos change).tile c.pos).IsTidy := by
      rw [World.tile_modify_same _ _ hp]
      exact (hempty _).isTidy
    refine .inr ⟨hm, change, hempty, ?_⟩
    rw [he]
    cases hmark : (w.tile c.pos).mark with
    | unmarked => exact absurd hmark hm
    | _ => simp only [Cell.reset_of_isTidy hc htidy]

theorem intake_retire (hc : c.Placed) (hp : c.pos < w.size) (q : Nat) :
    ((retire c w).2.2.tile q).intake = (w.tile q).intake := by
  rcases retire_cases hc hp with ⟨-, he⟩ | ⟨-, change, hempty, he⟩
  · rw [he]
    exact World.intake_modify _ _ _ fun _ => rfl
  · rw [he, ← w.intake_modify c.pos q fun t => (hempty t).intake]
    exact World.intake_modify _ _ _ fun _ => rfl

theorem intake_deathPhase (hc : ∀ c ∈ cells, c.Placed ∧ c.pos < w.size) (q : Nat) :
    ((deathPhase cells w).2.2.tile q).intake = (w.tile q).intake := by
  induction cells generalizing w with
  | nil => rfl
  | cons c rest ih =>
    obtain ⟨hplaced, hp⟩ := hc c List.mem_cons_self
    rw [← intake_retire hplaced hp]
    exact ih (ready_tail hc (retire_does hplaced hp))

/-! ## A whole step -/

/-- What the first visit of a step comes to. -/
structure Swept (d : Dish α) (intake : Intake) (cells : List (Cell α)) (w : World α) : Prop where
  phase : intakePhase d.tick d.cells d.world = .ok (intake, cells, w)
  /-- Every sire that waits before the step meets one fate. -/
  fates : ∀ q, ((d.world.tile q).fates.map (·.sire)).Perm (d.world.tile q).intake
  visited : d.world.Visited d.tick w
  housed : cells = d.cells.map fun c => c.house (d.world.tile c.pos).settles?
  /-- The frames of a tile on which a sire is settled have its program. -/
  loaded : ∀ c ∈ cells, ∀ sire, (d.world.tile c.pos).settles? = some sire →
    ∀ facing, (c.frame facing).Loaded sire.program
  births : intake.births = (List.range d.world.size).countP fun q =>
    !(d.world.tile q).live && !(d.world.tile q).intake.isEmpty
  /-- Those that were not settled were refunded by living tiles, or lost to one that was settled. -/
  total : ((List.range d.world.size).map fun q => (d.world.tile q).intake.length).sum =
    intake.births + intake.refunds + ((List.range d.world.size).map fun q =>
      if (d.world.tile q).live then 0 else (d.world.tile q).intake.tail.length).sum

theorem sum_map_toNat (p : Nat → Bool) (places : List Nat) :
    (places.map fun q => (p q).toNat).sum = places.countP p := by
  induction places with
  | nil => rfl
  | cons q rest ih =>
    rw [List.map_cons, List.sum_cons, ih, List.countP_cons]
    cases p q with
    | false => simp
    | true => simp; omega

omit [Scalar α] in
theorem length_settles? (t : Tile α) :
    t.settles?.toList.length = (!t.live && !t.intake.isEmpty).toNat := by
  unfold Tile.settles?
  cases t.live with
  | true => rfl
  | false =>
    cases t.intake with
    | nil => rfl
    | cons sire losers => rfl

omit [Scalar α] in
/-- Every waiting sire settles, is refunded by a living tile, or loses to the one that settles. -/
theorem length_intake (t : Tile α) : t.intake.length = t.settles?.toList.length +
    (if t.live then t.intake.length else 0) + if t.live then 0 else t.intake.tail.length := by
  unfold Tile.settles?
  cases t.live with
  | true => simp
  | false =>
    cases t.intake with
    | nil => rfl
    | cons sire losers => simp; omega

omit [Scalar α] in
/-- The sums over the cells are sums over the places. -/
theorem Laid.sum_map {d : Dish α} (hd : d.Laid) (f : Nat → Nat) :
    (d.cells.map fun c => f c.pos).sum = ((List.range d.world.size).map f).sum := by
  rw [← hd.positions, List.map_map]
  rfl

/-- The first visit of a step always comes to its end. -/
theorem exists_swept {d : Dish α} (hd : d.Laid) (hw : d.world.Sound) :
    ∃ intake cells w, d.Swept intake cells w := by
  have hnodup : (d.cells.map (·.pos)).Nodup := hd.positions ▸ List.nodup_range
  obtain ⟨w, hfold, hphase⟩ := intakePhase_eq d.tick d.world hw
    (fun c hc => ⟨hd.placed c hc, hd.lt hc⟩) hnodup fun _ _ => ⟨rfl, rfl⟩
  obtain ⟨v, hvisited⟩ := World.exists_visited hw d.tick
  rw [hd.positions] at hfold
  obtain rfl := Except.ok.inj (hfold.symm.trans hvisited.carried)
  refine ⟨_, _, w, hphase, fun q => Tile.fates_perm _, hvisited, rfl, ?_, ?_, ?_⟩
  · intro c hc sire hs facing
    obtain ⟨e, -, rfl⟩ := List.mem_map.1 hc
    rw [Cell.pos_house] at hs
    rw [hs]
    exact e.loaded_house sire facing
  · rw [hd.sum_map fun q => (d.world.tile q).settles?.toList.length, ← sum_map_toNat]
    simp only [length_settles?]
  · rw [hd.sum_map fun q => (d.world.tile q).settles?.toList.length,
      hd.sum_map fun q => if (d.world.tile q).live then (d.world.tile q).intake.length else 0,
      ← List.sum_map_add, ← List.sum_map_add]
    simp only [← length_intake]

theorem Reachable.sound {config : Config α} {d : Dish α} (h : d.Reachable config) :
    d.world.Sound := by
  obtain ⟨-, w₀, deeds, ids, h₀, hw⟩ := h.history
  exact (World.sound_new h₀).history hw

/-- No sire is lost or duplicated. In every step of a dish that can be reached each waiting sire is
either settled or turned away. The tile on which it settles is founded from its record, the cell there is
loaded with its program, and its endowment is credited to that tile; when it is turned away the endowment
is credited to the tile from which it came. Where numbers obey the laws of arithmetic every endowment is
finite and not negative, so none is passed over. The intakes are empty after these visits, and at the end
of the step they hold the sires that were offered during the step, in the order of the offers. -/
theorem sires_accounted {config : Config α} {d : Dish α} (h : d.Reachable config) :
    (∀ [Scalar.Numeric α], d.world.Endowed) ∧
    ∃ intake cells w, d.Swept intake cells w ∧
      ∀ summary d', d.step = .ok (summary, d') →
        summary.births = intake.births ∧ summary.refunds = intake.refunds ∧
        ∀ q, (d'.world.tile q).intake = offersTo q d.offers := by
  obtain ⟨hd, w₀, deeds, ids, h₀, hw⟩ := h.history
  refine ⟨World.endowed_history h₀ hw, ?_⟩
  obtain ⟨intake, cells₁, w₁, hswept⟩ := exists_swept hd h.sound
  refine ⟨intake, cells₁, w₁, hswept, fun summary d' hstep => ?_⟩
  have d₁ := intakePhase_do (fun c hc => ⟨hd.placed c hc, hd.lt hc⟩) hswept.phase
  have l₁ := d₁.laid hd d.tick
  obtain ⟨⟨intake', cells₁', w₁'⟩, h₁, hrest⟩ := bind_eq_ok hstep
  obtain ⟨⟨cells₂, w₂⟩, h₂, hlast⟩ := bind_eq_ok hrest
  obtain ⟨rfl, he⟩ := Prod.mk.inj (Except.ok.inj (hswept.phase.symm.trans (mapError_eq_ok h₁)))
  obtain ⟨rfl, rfl⟩ := Prod.mk.inj he
  have hact := mapError_eq_ok h₂
  have hplaced : ∀ c ∈ cells₁, c.Placed ∧ c.pos < w₁.size := fun c hc => ⟨l₁.placed c hc, l₁.lt hc⟩
  have l₂ := Do.laid l₁ (actPhase_do hplaced hact) d.tick
  cases hlast
  refine ⟨rfl, rfl, fun q => ?_⟩
  have hoffers : d.offers = phaseOffers d.tick cells₁ w₁ := by
    simp only [offers, hswept.phase]
  rw [hoffers]
  refine (intake_deathPhase (fun c hc => ⟨l₂.placed c hc, l₂.lt hc⟩) q).trans ?_
  rw [intake_actPhase (d₁.becomes.sound h.sound) hplaced hact, hswept.visited.emptied, List.nil_append]

def shaft : Config Rat := { World.pond with gridWidth := 1, gridHeight := 2 }

/-- The upper frame of a founder with ten units offers two sires to the other tile. In the next step
the first of them settles there, and the second is turned away. Four units go to either tile. -/
theorem sires_accounted_shaft : ∃ d intake cells w summary d' sire, Reachable shaft d ∧
    d.Swept intake cells w ∧ d.world.Endowed ∧ (d.world.tile 1).intake.length = 2 ∧
    (d.world.tile 1).settles? = some sire ∧ (w.tile 1).live = true ∧
    (w.tile 1).family.parent = some sire.record.sourcePos ∧
    (w.tile 0).stockpile.resource = (d.world.tile 0).stockpile.resource + 4 ∧
    (w.tile 1).stockpile.resource = (d.world.tile 1).stockpile.resource + 4 ∧
    d.step = .ok (summary, d') ∧ summary.births = 1 ∧ summary.refunds = 0 ∧
    ∀ q, (d'.world.tile q).intake = offersTo q d.offers := by
  have hrun : yields (Dish.new shaft) (fun d => yields (d.seed 0 World.spawner 10) fun d =>
      yields d.step fun r => yields r.2.step fun s =>
        decide (r.2.world.size = 2 ∧ (r.2.world.tile 1).intake.length = 2 ∧
          (r.2.world.tile 1).settles?.isSome = true ∧
          (r.2.world.creditsBelow 2 0).map (·.amount) = [4] ∧
          (r.2.world.creditsBelow 2 1).map (·.amount) = [4] ∧
          s.1.births = 1 ∧ s.1.refunds = 0)) = true := by decide +kernel
  obtain ⟨d₀, hnew, h⟩ := of_yields hrun
  obtain ⟨d₁, hseed, h⟩ := of_yields h
  obtain ⟨⟨summary₁, d⟩, hfirst, h⟩ := of_yields h
  obtain ⟨⟨summary, d'⟩, hsecond, h⟩ := of_yields h
  obtain ⟨hsize, htwo, hsettles, hback, hgift, hbirths, hrefunds⟩ := of_decide_eq_true h
  obtain ⟨sire, hsire⟩ := Option.isSome_iff_exists.1 hsettles
  have hreach : Reachable shaft d := ((Reachable.new hnew).seed hseed).step hfirst
  obtain ⟨hendowed, intake, cells, w, hswept, haccount⟩ := sires_accounted hreach
  obtain ⟨-, -, hoffers⟩ := haccount summary d' hsecond
  have hfounded := hswept.visited.founded 1 sire hsire
  have hresource := hswept.visited.resource
  rw [hsize] at hresource
  have hsource := hresource 0 (by decide)
  have htarget := hresource 1 (by decide)
  rw [hback] at hsource
  rw [hgift] at htarget
  exact ⟨d, intake, cells, w, summary, d', sire, hreach, hswept, hendowed, htwo, hsire, hfounded.live,
    hfounded.parent, hsource, htarget, hsecond, hbirths, hrefunds, hoffers⟩

end Dish

end Vivarium
