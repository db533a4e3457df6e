import Vivarium.Proofs.Dish.LifeCycle
import Vivarium.Proofs.World.Range
/-!
# Ranges of a dish

Whatever a dish is seeded with, its steps stay on the grid: cells act as they would if other tiles lay
behind the last one, and every step comes to its end or to a frame without a program.
-/
namespace Vivarium

variable {α : Type} [Scalar α] {w w' v : World α} {extra : Array (Tile α)}

/-- The clock counts on as long as a word can hold the ticks. -/
theorem Tick.count_next (t : Tick) (h : t.count.toNat < 2 ^ 64 - 1) :
    t.next.count.toNat = t.count.toNat + 1 := by
  rw [next, UInt64.toNat_add]
  exact Nat.mod_eq_of_lt (by change t.count.toNat + 1 < 2 ^ 64; omega)

/-! ## Cells -/

/-- If every visit of a walk commutes with a change of the state, the walk does. -/
theorem PerFacing.walk_commutes {β σ : Type} {f : β → σ → β × σ} {φ : σ → σ} {P : β → Prop}
    {I : σ → Prop} (hf : ∀ x s, P x → I s → f x (φ s) = ((f x s).1, φ (f x s).2) ∧ I (f x s).2)
    {q : PerFacing β} (hq : ∀ d, P (q.get d)) {s : σ} (hs : I s) :
    q.walk f (φ s) = ((q.walk f s).1, φ (q.walk f s).2) ∧ I (q.walk f s).2 := by
  obtain ⟨e₀, i₀⟩ := hf q.up s (hq 0) hs
  obtain ⟨e₁, i₁⟩ := hf q.right _ (hq 1) i₀
  obtain ⟨e₂, i₂⟩ := hf q.down _ (hq 2) i₁
  obtain ⟨e₃, i₃⟩ := hf q.left _ (hq 3) i₂
  simp only [walk, e₀, e₁, e₂, e₃]
  exact ⟨trivial, i₃⟩

namespace Cell

variable {c : Cell α}

omit [Scalar α] in
/-- A cell does not see the additional tiles if its frames do not. -/
theorem sweep_extend (hc : c.Placed) (hw : w.Holds c.pos) {act : Frame α → World α → Frame α × World α}
    (hact : ∀ (f : Frame α) (w : World α), w.Holds f.pos →
      act f (w.extend extra) = ((act f w).1, (act f w).2.extend extra) ∧ (act f w).2.Holds f.pos) :
    c.sweep act (w.extend extra) = ((c.sweep act w).1, (c.sweep act w).2.extend extra) ∧
      (c.sweep act w).2.Holds c.pos := by
  obtain ⟨hwalk, hkept⟩ := PerFacing.walk_commutes (f := act) (φ := World.extend extra)
    (P := fun f => f.pos = c.pos) (I := World.Holds c.pos)
    (fun f w hf hw => hf ▸ hact f w (hf.symm ▸ hw)) (fun d => (hc d).1) hw
  simp only [sweep, hwalk]
  exact ⟨trivial, hkept⟩

theorem reset_extend (extra : Array (Tile α)) (hc : c.Placed) (hw : w.Holds c.pos) :
    c.reset (w.extend extra) = ((c.reset w).1, (c.reset w).2.extend extra) ∧
      (c.reset w).2.Holds c.pos :=
  sweep_extend hc hw fun _ _ hw => Frame.reset_extend extra hw

theorem load_extend (extra : Array (Tile α)) (hc : c.Placed) (hw : w.Holds c.pos)
    (program : Program FrameOp) :
    c.load program (w.extend extra) = ((c.load program w).1, (c.load program w).2.extend extra) := by
  refine (sweep_extend hc hw fun f w hw => ?_).1
  obtain ⟨hreset, hkept⟩ := Frame.reset_extend extra hw
  rw [hreset]
  exact ⟨rfl, hkept⟩

theorem queueMessages_extend (extra : Array (Tile α)) (hc : c.Placed) (hw : w.Holds c.pos) :
    c.queueMessages (w.extend extra) =
      ((c.queueMessages w).1, (c.queueMessages w).2.extend extra) ∧
      (c.queueMessages w).2.Holds c.pos :=
  sweep_extend hc hw fun _ _ hw => Frame.queueMessages_extend extra hw

theorem advanceEnvironment_extend (extra : Array (Tile α)) (hc : c.Placed) (hw : w.Holds c.pos)
    (tick : Tick) :
    c.advanceEnvironment tick (w.extend extra) =
      ((c.advanceEnvironment tick w).1, (c.advanceEnvironment tick w).2.1,
        (c.advanceEnvironment tick w).2.2.extend extra) ∧
      (c.advanceEnvironment tick w).2.2.Holds c.pos := by
  obtain ⟨hwalk, hkept⟩ := PerFacing.walk_commutes
    (f := fun (f : Frame α) (s : List Tag × World α) =>
      ((f.advanceEnvironment s.2 tick).2.1,
        s.1 ++ (f.advanceEnvironment s.2 tick).1, (f.advanceEnvironment s.2 tick).2.2))
    (φ := fun s => (s.1, s.2.extend extra)) (P := fun f => f.pos = c.pos)
    (I := fun s => s.2.Holds c.pos)
    (fun f s hf hs => by
      obtain ⟨hpass, hkept⟩ := Frame.advanceEnvironment_extend extra (hf.symm ▸ hs) tick
      simp only [hpass]
      exact ⟨trivial, hf ▸ hkept⟩)
    (fun d => (hc d).1) (s := ([], w)) hw
  simp only [advanceEnvironment, hwalk]
  exact ⟨trivial, hkept⟩

theorem stepFrames_extend (extra : Array (Tile α)) (ds : List Direction) (hc : c.Placed)
    (hw : w.Holds c.pos) :
    stepFrames ds c (w.extend extra) =
      ((stepFrames ds c w).1, (stepFrames ds c w).2.1, (stepFrames ds c w).2.2.extend extra) := by
  induction ds generalizing c w with
  | nil => rfl
  | cons d rest ih =>
    have hpos : (c.frame d).pos = c.pos := (hc d).1
    obtain ⟨hexecute, hkept⟩ := Frame.execute_extend extra (hpos.symm ▸ hw)
    simp only [stepFrames, Frame.stepOnce]
    by_cases hp : (c.frame d).hasProgram = true
    · simp only [hp, if_true, hexecute]
      exact ih (Cell.setFrame_placed hc (f := ((c.frame d).execute w).1) hpos (hc d).2) (hpos ▸ hkept)
    · simp only [hp, Bool.false_eq_true, if_false]

end Cell

/-! ## Visits -/

/-- What happened during a step, without the sums over all tiles. -/
def Summary.events (s : Summary α) : Tick × Nat × Nat × Nat := (s.tick, s.births, s.deaths, s.refunds)

namespace Dish

variable {c : Cell α} {cells : List (Cell α)}

theorem settle_extend (hw : w.Sound) (hc : c.Placed) (hp : c.pos < w.size) (tick : Tick) :
    c.settle tick (w.extend extra) =
      (c.settle tick w).map fun r => (r.1, r.2.1, r.2.2.extend extra) := by
  unfold Cell.settle
  rw [World.settleSire_extend hw hp]
  cases hs : w.settleSire c.pos tick with
  | error e => rfl
  | ok r =>
    obtain ⟨program, u⟩ := r
    have hu : u.Sound ∧ u.size = w.size := by
      have hb : w.Becomes u := (World.Becomes.refl w).act (.settle c.pos tick) hp rfl
        (by rw [Deed.act, hs]; rfl)
      exact ⟨hb.sound hw, hb.size⟩
    cases program with
    | none => rfl
    | some program =>
      have hload := Cell.load_extend extra hc (hu.1.holds (hu.2.symm ▸ hp)) program
      exact congrArg (fun r : Cell α × World α => (Except.ok (true, r) : Except Fault _)) hload

/-- The first visit to a cell. -/
theorem takeIn_extend (hw : w.Sound) (hc : c.Placed) (hp : c.pos < w.size) (tick : Tick) :
    takeIn tick c (w.extend extra) =
      (takeIn tick c w).map fun r => (r.1, r.2.1, r.2.2.extend extra) := by
  unfold takeIn
  rw [World.tile_extend hp]
  by_cases hl : (w.tile c.pos).live = true
  · rw [if_pos hl, if_pos hl, World.refundIntake_extend hw hp]
    cases w.refundIntake c.pos with
    | error e => rfl
    | ok r => rfl
  · rw [if_neg hl, if_neg hl, settle_extend hw hc hp]
    cases c.settle tick w with
    | error e => rfl
    | ok r => rfl

/-- A living cell gets ready in the same way. -/
theorem ready_extend (extra : Array (Tile α)) (hc : c.Placed) (hw : w.Holds c.pos) (tick : Tick) :
    ready tick c (w.extend extra) = ((ready tick c w).1, (ready tick c w).2.extend extra) ∧
      (ready tick c w).2.Holds c.pos := by
  obtain ⟨hpass, hw₁⟩ := Cell.advanceEnvironment_extend extra hc hw tick
  have hdoes := Cell.advanceEnvironment_does hc hw.2 tick
  have hqueue := Cell.queueMessages_extend extra hdoes.placed (hdoes.pos.symm ▸ hw₁)
  simp only [ready, hpass]
  exact ⟨hqueue.1, hdoes.pos ▸ hqueue.2⟩

/-- The second visit. What it did stays done when a frame refuses. -/
def attempt (tick : Tick) (c : Cell α) (w : World α) : Option FrameError × Cell α × World α :=
  if (w.tile c.pos).live then
    Cell.stepFrames Direction.all (ready tick c w).1 (ready tick c w).2
  else (none, c, w)

/-- A visit is its attempt, except that nothing is returned when a frame refuses. -/
theorem act_eq_attempt (tick : Tick) (c : Cell α) (w : World α) :
    act tick c w = (attempt tick c w).1.elim (.ok (attempt tick c w).2) .error := by
  unfold attempt
  by_cases hl : (w.tile c.pos).live = true
  · rw [if_pos hl, act_eq hl]
  · rw [if_neg hl, act, if_neg hl]
    rfl

theorem attempt_does (hc : c.Placed) (hp : c.pos < w.size) (tick : Tick) :
    c.Does w (attempt tick c w).2.1 (attempt tick c w).2.2 := by
  unfold attempt
  by_cases hl : (w.tile c.pos).live = true
  · rw [if_pos hl]
    have hready := ready_does tick hc hp
    exact hready.trans (Cell.stepFrames_does Direction.all hready.placed (hready.lt hp))
  · rw [if_neg hl]
    exact ⟨rfl, hc, .refl w⟩

theorem attempt_extend (hw : w.Sound) (hc : c.Placed) (hp : c.pos < w.size) (tick : Tick) :
    attempt tick c (w.extend extra) =
      ((attempt tick c w).1, (attempt tick c w).2.1, (attempt tick c w).2.2.extend extra) := by
  unfold attempt
  rw [World.tile_extend hp]
  by_cases hl : (w.tile c.pos).live = true
  · obtain ⟨hready, hkept⟩ := ready_extend extra hc (hw.holds hp) tick
    have hdoes := ready_does tick hc hp
    rw [if_pos hl, if_pos hl, hready]
    exact Cell.stepFrames_extend extra Direction.all hdoes.placed (hdoes.pos.symm ▸ hkept)
  · rw [if_neg hl, if_neg hl]

/-- The third visit. -/
theorem retire_extend (hw : w.Sound) (hc : c.Placed) (hp : c.pos < w.size) :
    retire c (w.extend extra) =
      ((retire c w).1, (retire c w).2.1, (retire c w).2.2.extend extra) := by
  have hdie : w.Becomes (w.applyApoptosis c.pos).2 :=
    (World.Becomes.refl w).act (.die c.pos) hp rfl rfl
  unfold retire
  rw [World.applyApoptosis_extend hp]
  generalize w.applyApoptosis c.pos = died at hdie
  obtain ⟨mark, u⟩ := died
  have hu : u.Holds c.pos := (hdie.sound hw).holds (hdie.size.symm ▸ hp)
  obtain ⟨hreset, hkept⟩ := Cell.reset_extend extra hc hu
  cases mark with
  | unmarked => exact congrArg (fun v => (0, c, v)) (World.modify_extend hu.2 _)
  | partialDeath | completeDeath =>
    simp only [hreset]
    exact congrArg (fun v => (1, (c.reset u).1, v)) (World.modify_extend hkept.2 _)

/-! ## Phases -/

theorem Do.refl (hc : ∀ c ∈ cells, c.Placed) (w : World α) : Do cells w cells w := ⟨rfl, hc, .refl w⟩

/-- The first visits go well. -/
theorem exists_intake (tick : Tick) (hw : w.Sound) (hc : ∀ c ∈ cells, c.Placed ∧ c.pos < w.size) :
    ∃ intake cells' v, intakePhase tick cells w = .ok (intake, cells', v) ∧
      ∀ extra, intakePhase tick cells (w.extend extra) = .ok (intake, cells', v.extend extra) := by
  induction cells generalizing w with
  | nil => exact ⟨_, _, _, rfl, fun _ => rfl⟩
  | cons c rest ih =>
    obtain ⟨hplaced, hp⟩ := hc c List.mem_cons_self
    obtain ⟨here, c', w', htake⟩ : ∃ here c' w', takeIn tick c w = .ok (here, c', w') :=
      ⟨_, _, _, takeIn_eq hw hplaced hp tick⟩
    have hdoes := takeIn_does hplaced hp htake
    obtain ⟨later, rest', v, hrest, hextend⟩ := ih (hdoes.becomes.sound hw) (ready_tail hc hdoes)
    refine ⟨⟨here.births + later.births, here.refunds + later.refunds⟩, c' :: rest', v, ?_,
      fun extra => ?_⟩
    · rw [intakePhase, htake]
      change (intakePhase tick rest w' >>= _) = _
      rw [hrest]
      rfl
    · rw [intakePhase, takeIn_extend hw hplaced hp, htake]
      change (intakePhase tick rest (w'.extend extra) >>= _) = _
      rw [hextend extra]
      rfl

/-- The second visits up to the first at which a frame refuses, and what they leave behind. -/
def actPass (tick : Tick) :
    List (Cell α) → World α → Option FrameError × List (Cell α) × World α
  | [], w => (none, [], w)
  | c :: rest, w =>
    match attempt tick c w with
    | (some e, c, w) => (some e, c :: rest, w)
    | (none, c, w) =>
      let (e, rest, w) := actPass tick rest w
      (e, c :: rest, w)

theorem actPhase_eq (tick : Tick) (cells : List (Cell α)) (w : World α) :
    actPhase tick cells w =
      (actPass tick cells w).1.elim (.ok (actPass tick cells w).2) .error := by
  induction cells generalizing w with
  | nil => rfl
  | cons c rest ih =>
    rw [actPhase, act_eq_attempt, actPass]
    rcases attempt tick c w with ⟨_ | e, c', w'⟩
    · change (actPhase tick rest w' >>= fun r => pure (c' :: r.1, r.2)) =
        (actPass tick rest w').1.elim (.ok (c' :: (actPass tick rest w').2.1,
          (actPass tick rest w').2.2)) .error
      rw [ih]
      cases (actPass tick rest w').1 with
      | none => rfl
      | some e => rfl
    · rfl

/-- What is done before a frame refuses is done by deeds. -/
theorem actPass_do (tick : Tick) (hc : ∀ c ∈ cells, c.Placed ∧ c.pos < w.size) :
    Do cells w (actPass tick cells w).2.1 (actPass tick cells w).2.2 := by
  induction cells generalizing w with
  | nil => exact .nil w
  | cons c rest ih =>
    obtain ⟨hplaced, hp⟩ := hc c List.mem_cons_self
    have hdoes := attempt_does hplaced hp tick
    have htail := ready_tail hc hdoes
    rw [actPass]
    generalize attempt tick c w = tried at hdoes htail
    obtain ⟨_ | e, c', w'⟩ := tried
    · exact Do.cons hdoes (ih htail)
    · exact Do.cons hdoes (.refl (fun d hd => (htail d hd).1) w')

theorem actPass_extend (tick : Tick) (hw : w.Sound)
    (hc : ∀ c ∈ cells, c.Placed ∧ c.pos < w.size) (extra : Array (Tile α)) :
    actPass tick cells (w.extend extra) =
      ((actPass tick cells w).1, (actPass tick cells w).2.1,
        (actPass tick cells w).2.2.extend extra) := by
  induction cells generalizing w with
  | nil => rfl
  | cons c rest ih =>
    obtain ⟨hplaced, hp⟩ := hc c List.mem_cons_self
    have hdoes := attempt_does hplaced hp tick
    have hnext := ih (hdoes.becomes.sound hw) (ready_tail hc hdoes)
    rw [actPass, actPass, attempt_extend hw hplaced hp]
    generalize attempt tick c w = tried at hnext
    obtain ⟨_ | e, c', w'⟩ := tried
    · simp only [hnext]
    · rfl

theorem deathPhase_extend (hw : w.Sound) (hc : ∀ c ∈ cells, c.Placed ∧ c.pos < w.size)
    (extra : Array (Tile α)) :
    deathPhase cells (w.extend extra) =
      ((deathPhase cells w).1, (deathPhase cells w).2.1, (deathPhase cells w).2.2.extend extra) := by
  induction cells generalizing w with
  | nil => rfl
  | cons c rest ih =>
    obtain ⟨hplaced, hp⟩ := hc c List.mem_cons_self
    have hdoes := retire_does hplaced hp
    have hnext := ih (hdoes.becomes.sound hw) (ready_tail hc hdoes)
    simp only [deathPhase, retire_extend hw hplaced hp, hnext]

/-! ## Runs -/

/-- A step that comes to a frame without a program ends there. What was done before stays done, and
the clock does not move. -/
def Halts (d : Dish α) (e : FrameError) (d' : Dish α) : Prop :=
  ∃ intake cells w, intakePhase d.tick d.cells d.world = .ok (intake, cells, w) ∧
    actPass d.tick cells w = (some e, d'.cells, d'.world) ∧ d'.tick = d.tick

/-- The dishes that the owner of a new dish can bring about, also when a step does not come to its
end. -/
inductive Run (config : Config α) : Dish α → Prop where
  | new {d : Dish α} : Dish.new config = .ok d → Run config d
  | seed {d d' : Dish α} {pos program resource} : Run config d →
      d.seed pos program resource = .ok d' → Run config d'
  | step {d d' : Dish α} {summary} : Run config d → d.step = .ok (summary, d') → Run config d'
  | halt {d d' : Dish α} {e} : Run config d → d.Halts e d' → Run config d'

variable {config : Config α} {d d' : Dish α}

/-- A step that is broken off consists of deeds, and its cells stay listed by place. -/
theorem Halts.laid {e : FrameError} (hd : d.Laid) (h : d.Halts e d') :
    d.world.Becomes d'.world ∧ d'.Laid := by
  obtain ⟨intake, cells, w, hintake, hpass, -⟩ := h
  have d₁ := intakePhase_do (fun c hc => ⟨hd.placed c hc, hd.lt hc⟩) hintake
  have l₁ := d₁.laid hd d.tick
  have d₂ := actPass_do d.tick fun c hc => ⟨l₁.placed c hc, l₁.lt hc⟩
  rw [hpass] at d₂
  exact ⟨d₁.becomes.trans d₂.becomes, Do.laid l₁ d₂ d'.tick⟩

/-- Steps that are broken off have a history as well. -/
theorem Run.history (h : Run config d) : d.Traced config := by
  induction h with
  | new h => exact traced_new h
  | seed _ hs ih => exact ih.seed hs
  | step _ hs ih => exact ih.step hs
  | halt _ hs ih =>
    obtain ⟨hb, hl⟩ := hs.laid ih.1
    exact ih.becomes hl hb

/-! ## Steps -/

def extend (extra : Array (Tile α)) (d : Dish α) : Dish α := { d with world := d.world.extend extra }

theorem seed_eq {pos : Nat} (h : d.cells[pos]? = some c) (program : Program FrameOp) (resource : α) :
    d.seed pos program resource = .ok { d with
      world := (c.load program
        ((d.world.found pos d.tick).modifyStockpile pos (·.grow resource))).2
      cells := d.cells.set pos (c.load program
        ((d.world.found pos d.tick).modifyStockpile pos (·.grow resource))).1 } := by
  rw [seed, h]

/-- Seeding does not see the additional tiles. -/
theorem seed_extend (hd : d.Laid) (hw : d.world.Sound) {pos : Nat} (hp : pos < d.world.size)
    (program : Program FrameOp) (resource : α) (extra : Array (Tile α)) :
    (d.extend extra).seed pos program resource =
      (d.seed pos program resource).map (·.extend extra) := by
  obtain ⟨c, hcell⟩ : ∃ c, d.cells[pos]? = some c := by
    refine ⟨_, List.getElem?_eq_getElem ?_⟩
    rw [← List.length_map (·.pos), hd.positions, List.length_range]
    exact hp
  obtain ⟨hplaced, hpos, -⟩ := hd.of_getElem? hcell
  have hsize : (d.world.found pos d.tick).size = d.world.size := World.size_modify _ _ _
  have hgrow : ((d.world.extend extra).found pos d.tick).modifyStockpile pos (·.grow resource) =
      ((d.world.found pos d.tick).modifyStockpile pos (·.grow resource)).extend extra := by
    rw [World.found_extend hp]
    exact World.modify_extend (hsize.symm ▸ hp) _
  have hkept : ((d.world.found pos d.tick).modifyStockpile pos (·.grow resource)).Holds c.pos := by
    rw [World.Holds, World.modifyStockpile, World.size_modify, hsize, hpos]
    exact ⟨hw.grid_size, hp⟩
  have hload := Cell.load_extend extra hplaced hkept program
  have hcell' : (d.extend extra).cells[pos]? = some c := hcell
  rw [seed_eq hcell, seed_eq hcell', extend, hgrow, hload]
  rfl

theorem Halts.step {e : FrameError} (h : d.Halts e d') : d.step = .error (.frame e) := by
  obtain ⟨intake, cells, w, hintake, hpass, -⟩ := h
  have hact : actPhase d.tick cells w = .error e := by
    rw [actPhase_eq, hpass]
    rfl
  rw [Dish.step, hintake]
  change ((actPhase d.tick cells w).mapError DishError.frame >>= _) = _
  rw [hact]
  rfl

/-- A step that comes to its end is made of the three visits. -/
theorem step_eq {intake : Intake} {cells₂ : List (Cell α)} {w₂ : World α}
    (hintake : intakePhase d.tick d.cells d.world = .ok (intake, cells, w))
    (hpass : actPass d.tick cells w = (none, cells₂, w₂)) :
    d.step = .ok ({
        tick := d.tick
        live := (deathPhase cells₂ w₂).2.2.liveCount
        births := intake.births
        deaths := (deathPhase cells₂ w₂).1
        refunds := intake.refunds
        resource := (deathPhase cells₂ w₂).2.2.totalResource
        pending := (deathPhase cells₂ w₂).2.2.pendingEndowment },
      ⟨(deathPhase cells₂ w₂).2.2, (deathPhase cells₂ w₂).2.1, d.tick.next⟩) := by
  have hact : actPhase d.tick cells w = .ok (cells₂, w₂) := by
    rw [actPhase_eq, hpass]
    rfl
  rw [step, hintake]
  change ((actPhase d.tick cells w).mapError DishError.frame >>= _) = _
  rw [hact]
  rfl

/-- A step comes to its end or to a frame without a program, and what lies behind the last tile makes
no difference to it. -/
theorem step_cases (hd : d.Laid) (hw : d.world.Sound) :
    (∃ summary d', d.step = .ok (summary, d') ∧ d'.tick = d.tick.next ∧
      ∀ extra, ∃ summary', (d.extend extra).step = .ok (summary', d'.extend extra) ∧
        summary'.events = summary.events) ∨
    ∃ e d', d.Halts e d' ∧ ∀ extra, (d.extend extra).Halts e (d'.extend extra) := by
  obtain ⟨intake, cells, w, hintake, hextend⟩ :=
    exists_intake d.tick hw fun c hc => ⟨hd.placed c hc, hd.lt hc⟩
  have d₁ := intakePhase_do (fun c hc => ⟨hd.placed c hc, hd.lt hc⟩) hintake
  have l₁ := d₁.laid hd d.tick
  have hsound := d₁.becomes.sound hw
  have d₂ := actPass_do d.tick fun c hc => ⟨l₁.placed c hc, l₁.lt hc⟩
  have l₂ := Do.laid l₁ d₂ d.tick
  have hpass (extra) := actPass_extend d.tick hsound
    (fun c hc => ⟨l₁.placed c hc, l₁.lt hc⟩) extra
  generalize hcut : actPass d.tick cells w = cut at d₂ l₂ hpass
  obtain ⟨_ | e, cells₂, w₂⟩ := cut
  · have hdeath (extra) := deathPhase_extend (d₂.becomes.sound hsound)
      (fun c hc => ⟨l₂.placed c hc, l₂.lt hc⟩) extra
    refine .inl ⟨_, _, step_eq hintake hcut, rfl, fun extra => ?_⟩
    have hstep := step_eq (d := d.extend extra) (hextend extra) (hpass extra)
    rw [hdeath extra] at hstep
    exact ⟨_, hstep, rfl⟩
  · exact .inr ⟨e, ⟨w₂, cells₂, d.tick⟩, ⟨intake, cells, w, hintake, hcut, rfl⟩,
      fun extra => ⟨intake, cells, w.extend extra, hextend extra, hpass extra, rfl⟩⟩

/-! ## Ranges -/

/-- Everything that a dish looks up is there, and so is what it will look up in the next step. -/
structure InRange (config : Config α) (d : Dish α) : Prop where
  world : d.world.InRange config
  enclosed : d.world.Enclosed
  positions : d.cells.map (·.pos) = List.range d.world.size
  placed : ∀ c ∈ d.cells, c.Placed
  tick : d.tick.count.toNat < 2 ^ 64 - 1 → d.tick.next.count.toNat = d.tick.count.toNat + 1
  seed : ∀ pos < d.world.size, ∀ program resource, ∃ d', d.seed pos program resource = .ok d' ∧
    ∀ extra, (d.extend extra).seed pos program resource = .ok (d'.extend extra)
  step : (∃ summary d', d.step = .ok (summary, d') ∧ d'.tick = d.tick.next ∧
      ∀ extra, ∃ summary', (d.extend extra).step = .ok (summary', d'.extend extra) ∧
        summary'.events = summary.events) ∨
    ∃ e d', d.Halts e d' ∧ d.step = .error (.frame e) ∧
      ∀ extra, (d.extend extra).Halts e (d'.extend extra)

/-- On a grid with sides up to `2 ^ 31` a dish never looks beyond its tiles. -/
theorem Run.inRange (h : Run config d) (hw : config.gridWidth.toNat ≤ 2 ^ 31)
    (hh : config.gridHeight.toNat ≤ 2 ^ 31) : d.InRange config := by
  obtain ⟨hlaid, w₀, deeds, ids, h₀, hhistory⟩ := h.history
  have hrun := World.Run.of_history h₀ hhistory
  have hsound := hrun.sound
  constructor
  · exact hrun.inRange hw hh
  · exact hsound.enclosed
  · exact hlaid.positions
  · exact hlaid.placed
  · exact d.tick.count_next
  · intro pos hp program resource
    obtain ⟨d', hseed⟩ := exists_seed hlaid hp program resource
    refine ⟨d', hseed, fun extra => ?_⟩
    rw [seed_extend hlaid hsound hp, hseed]
    rfl
  · rcases step_cases hlaid hsound with hends | ⟨e, d', hhalts, hextend⟩
    · exact .inl hends
    · exact .inr ⟨e, d', hhalts, hhalts.step, hextend⟩

/-- With a valid configuration whose grid is not too wide and not too high, a world and a dish can be
set up. Whatever their owner then does at places of the grid, and whatever programs the frames run,
every place, slot and level that is looked up is there, no divisor is zero, and nothing that is done
goes wrong or depends on what lies behind the last tile. -/
theorem stays_in_range (hv : config.validate = .ok ()) (hw : config.gridWidth.toNat ≤ 2 ^ 31)
    (hh : config.gridHeight.toNat ≤ 2 ^ 31) :
    (∃ w, World.new config = .ok w) ∧ (∃ d, Dish.new config = .ok d) ∧
    (∀ w, World.Run config w → w.InRange config ∧ w.Enclosed) ∧
    ∀ d, Run config d → d.InRange config := by
  obtain ⟨w, hnew⟩ := Config.exists_new hv
  refine ⟨⟨w, hnew⟩, ?_, fun w h => ⟨h.inRange hw hh, h.sound.enclosed⟩, fun d h => h.inRange hw hh⟩
  rw [Dish.new, hnew]
  exact ⟨_, rfl⟩

/-- The founder of the shaft has offered two sires to the other tile, and the owner takes one of them
away. -/
theorem stays_in_range_shaft : shaft.validate = .ok () ∧ ∃ d w, Run shaft d ∧ d.InRange shaft ∧
    World.Run shaft w ∧ w.InRange shaft ∧ w.Enclosed ∧ (w.tile 1).intake.length = 1 := by
  have hvalid : shaft.validate = .ok () := by decide +kernel
  have hrun : yields (Dish.new shaft) (fun d => yields (d.seed 0 World.spawner 10) fun d =>
      yields d.step fun r => decide ((r.2.world.tile 1).intake.length = 2)) = true := by
    decide +kernel
  obtain ⟨d₀, hnew, h⟩ := of_yields hrun
  obtain ⟨d₁, hseed, h⟩ := of_yields h
  obtain ⟨⟨summary, d⟩, hstep, h⟩ := of_yields h
  have htwo : (d.world.tile 1).intake.length = 2 := of_decide_eq_true h
  obtain ⟨-, -, hworlds, hdishes⟩ := stays_in_range hvalid (by decide) (by decide)
  have hd : Run shaft d := ((Run.new hnew).seed hseed).step hstep
  obtain ⟨-, w₀, deeds, ids, h₀, hhistory⟩ := hd.history
  have hsize : 1 < d.world.size := by
    rw [(hdishes d hd).world.size_eq]
    decide
  have hw := (World.Run.of_history h₀ hhistory).edit .pop hsize fun sire h => by cases h
  obtain ⟨hrange, henclosed⟩ := hworlds _ hw
  refine ⟨hvalid, d, _, hd, hdishes d hd, hw, hrange, henclosed, ?_⟩
  rw [World.tile_modify_same _ _ hsize]
  exact (List.length_tail).trans (by rw [htwo])

end Dish

end Vivarium
