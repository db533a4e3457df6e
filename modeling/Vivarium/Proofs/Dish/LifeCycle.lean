import Vivarium.Proofs.Dish.Rounds
/-!
# The life cycle of a dish

Who lives where is known to the world, programs to the cells, and marks and messages lie on the tiles.
In a dish that was seeded with programs that are not empty these never disagree: on a living tile
all four frames run the same program, and on a dead one nothing is left of the last occupant. So a
step always comes to its end, and changes the population by births and deaths.
-/
namespace Vivarium

variable {α : Type} [Scalar α] {w v : World α}

/-! ## Cells and their tiles -/

structure Frame.Blank (f : Frame α) : Prop where
  program : f.cpu.program = .none
  threads : f.cpu.threads = []
  events : f.cpu.events = []
  shared : f.cpu.board.shared = .empty
  membrane : f.membrane.isEmpty = true

def Cell.Runs (c : Cell α) (program : Program FrameOp) : Prop :=
  ∀ d, (c.frames.get d).cpu.program = program

/-- Nobody lives on the tile, and nothing is left of whoever did. -/
structure Cell.Vacant (c : Cell α) (nlev : Nat) (t : Tile α) : Prop where
  frames : ∀ d, (c.frames.get d).Blank
  mark : t.mark = .unmarked
  controls : t.controls = .replicate (.new nlev)
  inboxes : t.inboxes = .replicate []

/-- The occupant of the tile runs one of the given programs. -/
structure Cell.Inhabited (c : Cell α) (programs : List (Program FrameOp)) (nlev : Nat)
    (t : Tile α) : Prop where
  program : ∃ program ∈ programs, c.Runs program
  ids : ∃ ids, t.channel.ids = some ids ∧ ids.length = nlev

structure Cell.Fits (c : Cell α) (programs : List (Program FrameOp)) (nlev : Nat)
    (t : Tile α) : Prop where
  inhabited : t.live = true → c.Inhabited programs nlev t
  vacant : t.live = false → c.Vacant nlev t

theorem Frame.blank_blank (f : Frame α) : f.blank.Blank := ⟨rfl, rfl, rfl, rfl, rfl⟩

theorem Frame.blank_build (pos : Nat) (facing : Direction) (config : Config α) (rng : Generator) :
    (Frame.build pos facing config rng).Blank := ⟨rfl, rfl, rfl, rfl, rfl⟩

namespace Cell

variable {c : Cell α} {programs : List (Program FrameOp)} {nlev : Nat} {t u : Tile α}

/-- What a cell needs to know of its tile. -/
theorem Fits.congr (h : c.Fits programs nlev t) (hl : u.live = t.live)
    (hids : t.live = true → u.channel.ids = t.channel.ids) (hrests : t.live = false → t.Rests u) :
    c.Fits programs nlev u := by
  constructor
  · intro hlive
    rw [hl] at hlive
    obtain ⟨hprogram, hi⟩ := h.inhabited hlive
    exact ⟨hprogram, hids hlive ▸ hi⟩
  · intro hdead
    rw [hl] at hdead
    obtain ⟨hframes, hmark, hcontrols, hinboxes⟩ := h.vacant hdead
    obtain ⟨hm, hc, hi⟩ := hrests hdead
    exact ⟨hframes, hm.trans hmark, hc.trans hcontrols, hi.trans hinboxes⟩

/-- A tile lives just when all frames of its cell have a program. -/
theorem Fits.live_iff (h : c.Fits programs nlev t)
    (hprograms : ∀ program ∈ programs, program.isEmpty = false) :
    t.live = true ↔ c.hasProgram = true := by
  have hall : c.hasProgram = true ↔ ∀ d, (c.frames.get d).hasProgram = true := by
    constructor
    · intro h d
      simp only [hasProgram, PerFacing.toList, List.all_cons, List.all_nil, Bool.and_eq_true] at h
      match d with
      | 0 => exact h.1
      | 1 => exact h.2.1
      | 2 => exact h.2.2.1
      | 3 => exact h.2.2.2.1
    · intro h
      simp only [hasProgram, PerFacing.toList, List.all_cons, List.all_nil, Bool.and_eq_true]
      exact ⟨h 0, h 1, h 2, h 3, trivial⟩
  rw [hall]
  constructor
  · intro hlive d
    obtain ⟨program, hp, hruns⟩ := (h.inhabited hlive).program
    rw [Frame.hasProgram, Machine.hasProgram, hruns, hprograms program hp]
    rfl
  · intro hf
    cases hl : t.live with
    | true => rfl
    | false =>
      have hnone := hf 0
      rw [Frame.hasProgram, Machine.hasProgram, ((h.vacant hl).frames 0).program] at hnone
      cases hnone

end Cell

/-! ## The world -/

/-- What the world has to keep for its cells: controls of the right size, and sires that carry one of
the given programs. -/
structure World.Peopled (w : World α) (config : Config α) (programs : List (Program FrameOp)) :
    Prop where
  sound : w.Sound
  config_eq : w.config = config
  paused : ∀ q d, ((w.tile q).controls.get d).paused.length = config.nlev + 1
  sires : ∀ q, ∀ sire ∈ (w.tile q).intake, sire.program ∈ programs

theorem Controls.reset_eq_new {c : Controls α} {nlev : Nat} (h : c.paused.length = nlev + 1) :
    c.reset = .new nlev := by
  simp only [reset, resumeAll, new, ← h, List.map_const']

theorem PerFacing.ext_get {β : Type} {p q : PerFacing β} (h : ∀ d, p.get d = q.get d) : p = q := by
  cases p
  cases q
  rw [PerFacing.mk.injEq]
  exact ⟨h 0, h 1, h 2, h 3⟩

/-- A cell with blank frames on a tile that was emptied. -/
theorem Cell.fits_of_emptied {c : Cell α} {programs : List (Program FrameOp)} {nlev : Nat}
    {t u : Tile α} (hc : ∀ d, (c.frames.get d).Blank) (hu : t.Emptied u)
    (ht : ∀ d, (t.controls.get d).paused.length = nlev + 1) : c.Fits programs nlev u := by
  refine ⟨fun h => absurd (h.symm.trans hu.live) (by decide), fun _ => ⟨hc, hu.mark, ?_, hu.inboxes⟩⟩
  refine PerFacing.ext_get fun d => ?_
  rw [hu.controls, PerFacing.get_map, PerFacing.get_replicate, Controls.reset_eq_new (ht d)]

/-- The cell stands on the grid and is as its tile wants it to be. -/
structure Cell.Stands (c : Cell α) (config : Config α) (programs : List (Program FrameOp))
    (w : World α) : Prop where
  placed : c.Placed
  lt : c.pos < w.size
  fits : c.Fits programs config.nlev (w.tile c.pos)

/-! ## Births -/

namespace Dish

variable {config : Config α} {programs : List (Program FrameOp)} {c e : Cell α}

theorem length_ids_ofSire (levels : List Level) (record : SireRecord) (g : Generator) :
    ∃ ids, (Channel.ofSire levels record g).1.ids = some ids ∧ ids.length = levels.length := by
  refine ⟨_, rfl, ?_⟩
  rw [List.length_map, Channel.length_inheritAll, List.length_range]

theorem length_levels (hw : w.Peopled config programs) : w.config.levels.length = config.nlev := by
  rw [hw.sound.levels_length, hw.config_eq]

/-- A visit settles a sire with a program that is given, or leaves the occupant as it is. -/
theorem fits_taken (hw : w.Peopled config programs) (hc : c.Stands config programs w)
    (tick : Tick) : (c.house (w.tile c.pos).settles?).Fits programs config.nlev
      ((w.taken tick c.pos).tile c.pos) := by
  cases hs : (w.tile c.pos).settles? with
  | none =>
    obtain ⟨stockpile, htile⟩ := w.exists_tile_taken_unsettled tick hs
    rw [htile]
    exact hc.fits.congr rfl (fun _ => rfl) fun _ => ⟨rfl, rfl, rfl⟩
  | some sire =>
    obtain ⟨stockpile, children, htile⟩ := World.tile_taken_same hw.sound hc.lt tick hs
    obtain ⟨ids, hids, hlength⟩ := length_ids_ofSire w.config.levels sire.record w.rng
    rw [htile]
    refine ⟨fun _ => ⟨⟨sire.program, ?_, fun d => ?_⟩, ids, hids, ?_⟩, fun h => by cases h⟩
    · exact hw.sires c.pos sire (Tile.mem_of_settles? hs).2
    · rw [Cell.house, PerFacing.get_map]
      rfl
    · rw [hlength, length_levels hw]

/-- A visit brings a tile to life if it settles a sire there, and never kills. -/
theorem live_taken (hw : w.Sound) (hp : c.pos < w.size) (tick : Tick) :
    ((w.taken tick c.pos).tile c.pos).live.toNat =
      (w.tile c.pos).live.toNat + (w.tile c.pos).settles?.toList.length := by
  cases hs : (w.tile c.pos).settles? with
  | none =>
    obtain ⟨stockpile, htile⟩ := w.exists_tile_taken_unsettled tick hs
    rw [htile]
    rfl
  | some sire =>
    obtain ⟨stockpile, children, htile⟩ := World.tile_taken_same hw hp tick hs
    rw [htile, (Tile.mem_of_settles? hs).1]
    rfl

theorem paused_taken (hw : w.Peopled config programs) (hp : c.pos < w.size) (tick : Tick) (q : Nat)
    (d : Direction) :
    (((w.taken tick c.pos).tile q).controls.get d).paused.length = config.nlev + 1 := by
  by_cases hq : q = c.pos
  · subst hq
    cases hs : (w.tile c.pos).settles? with
    | none =>
      obtain ⟨stockpile, htile⟩ := w.exists_tile_taken_unsettled tick hs
      rw [htile]
      exact hw.paused c.pos d
    | some sire =>
      obtain ⟨stockpile, children, htile⟩ := World.tile_taken_same hw.sound hp tick hs
      rw [htile, Tile.occupy, Tile.tidy, PerFacing.get_map, Controls.reset_eq_new (hw.paused c.pos d)]
      exact List.length_replicate
  · obtain ⟨stockpile, children, htile⟩ := World.akin_taken_other hw.sound tick hq
    rw [htile]
    exact hw.paused q d

/-- What the world keeps for its cells outlasts a visit. -/
theorem peopled_taken (hw : w.Peopled config programs) (hc : c.Stands config programs w)
    (tick : Tick) : (w.taken tick c.pos).Peopled config programs := by
  have hdoes := takeIn_does hc.placed hc.lt (takeIn_eq hw.sound hc.placed hc.lt tick)
  obtain ⟨deeds, ids, hh, -⟩ := hdoes.becomes
  refine ⟨hdoes.becomes.sound hw.sound, hh.ground.1.trans hw.config_eq,
    paused_taken hw hc.lt tick, fun q sire hs => ?_⟩
  rw [World.intake_taken] at hs
  split at hs
  · cases hs
  · exact hw.sires q sire hs

/-- The first visit of a cell of the dish. -/
theorem exists_takeIn (hw : w.Peopled config programs) (hc : c.Stands config programs w)
    (tick : Tick) : ∃ report c' w', takeIn tick c w = .ok (report, c', w') ∧ c'.pos = c.pos ∧
      (w'.Peopled config programs ∧ w'.population = w.population + report.births) ∧
      c'.Stands config programs w' ∧
      ∀ e : Cell α, e.pos ≠ c.pos → e.Stands config programs w → e.Stands config programs w' := by
  have htake := takeIn_eq hw.sound hc.placed hc.lt tick
  have hdoes := takeIn_does hc.placed hc.lt htake
  have hsize := hdoes.becomes.size
  refine ⟨_, _, _, htake, hdoes.pos, ⟨peopled_taken hw hc tick, ?_⟩, ⟨hdoes.placed, ?_, ?_⟩, ?_⟩
  · have hlive := live_taken hw.sound hc.lt tick
    have hcount := World.population_update hsize (fun q hq => by
      obtain ⟨stockpile, children, htile⟩ := World.akin_taken_other hw.sound tick hq
      rw [htile]) hc.lt
    simp only at hcount ⊢
    omega
  · rw [hsize, hdoes.pos]
    exact hc.lt
  · rw [hdoes.pos]
    exact fits_taken hw hc tick
  · intro e hne he
    obtain ⟨stockpile, children, htile⟩ := World.akin_taken_other hw.sound tick hne
    refine ⟨he.placed, hsize.symm ▸ he.lt, ?_⟩
    rw [htile]
    exact he.fits.congr rfl (fun _ => rfl) fun _ => ⟨rfl, rfl, rfl⟩

end Dish

/-! ## Acts -/

namespace Frame

theorem program_advanceEnvironment (f : Frame α) (w : World α) (tick : Tick) :
    (f.advanceEnvironment w tick).2.1.cpu.program = f.cpu.program := by
  unfold advanceEnvironment
  split
  · exact Machine.program_handle _ _
  · rfl

/-- No pass changes a program. -/
theorem program_execute (f : Frame α) (w : World α) :
    (f.execute w).1.cpu.program = f.cpu.program :=
  Machine.program_handle { f.cpu with events := [] } f.cpu.events

end Frame

namespace Cell

variable {c : Cell α} {program : Program FrameOp}

/-- What frames do in turn, when each keeps its place and its program. -/
theorem walk_runs {σ : Type} (hc : c.Placed) (hr : c.Runs program)
    (visit : Frame α → σ → Frame α × σ) (world : σ → World α)
    (hv : ∀ f s, (visit f s).1.pos = f.pos ∧ (visit f s).1.cpu.program = f.cpu.program ∧
      World.Respects f.pos (world s) (world (visit f s).2)) (s : σ) :
    (∀ d, ((c.frames.walk visit s).1.get d).cpu.program = program) ∧
      World.Respects c.pos (world s) (world (c.frames.walk visit s).2) := by
  have hwalk := PerFacing.walk_induction (f := visit)
    (P := fun _ f => f.pos = c.pos ∧ f.cpu.program = program)
    (I := fun t => World.Respects c.pos (world s) (world t))
    (fun d f t hf ht => by
      obtain ⟨hpos, hprogram, hrespects⟩ := hv f t
      rw [hf.1] at hrespects
      exact ⟨⟨hpos.trans hf.1, hprogram.trans hf.2⟩, ht.trans hrespects⟩)
    c.frames (fun d => ⟨(hc d).1, hr d⟩) s (.refl _)
  exact ⟨fun d => (hwalk.1 d).2, hwalk.2⟩

theorem advanceEnvironment_runs (hc : c.Placed) (hr : c.Runs program) (tick : Tick) (w : World α) :
    (c.advanceEnvironment tick w).2.1.Runs program ∧
      World.Respects c.pos w (c.advanceEnvironment tick w).2.2 :=
  walk_runs hc hr (fun f (s : List Tag × World α) => ((f.advanceEnvironment s.2 tick).2.1,
    s.1 ++ (f.advanceEnvironment s.2 tick).1, (f.advanceEnvironment s.2 tick).2.2)) (·.2)
    (fun f s => ⟨(advanceEnvironment_frame f s.2 tick).1, f.program_advanceEnvironment s.2 tick,
      f.respects_advanceEnvironment s.2 tick⟩) ([], w)

theorem queueMessages_runs (hc : c.Placed) (hr : c.Runs program) (w : World α) :
    (c.queueMessages w).1.Runs program ∧ World.Respects c.pos w (c.queueMessages w).2 :=
  walk_runs hc hr Frame.queueMessages id (fun f w => ⟨rfl, rfl, f.respects_queueMessages w⟩) w

/-- Frames with a program step without complaint, and queue only sires that carry it. -/
theorem stepFrames_runs (ds : List Direction) (hc : c.Placed) (hp : c.pos < w.size)
    (hr : c.Runs program) (hprogram : program.isEmpty = false) (hw : w.Sound) :
    ∃ c' v, stepFrames ds c w = (none, c', v) ∧ c'.Runs program ∧ World.Respects c.pos w v ∧
      ∀ q, ∀ sire ∈ (v.tile q).intake, sire ∈ (w.tile q).intake ∨ sire.program = program := by
  induction ds generalizing c w with
  | nil => exact ⟨c, w, rfl, hr, .refl w, fun _ _ hs => .inl hs⟩
  | cons d rest ih =>
    obtain ⟨hpos, hfacing⟩ := hc d
    have hrun : (c.frame d).cpu.program = program := hr d
    have hstep : (c.frame d).stepOnce w = .ok ((c.frame d).execute w) := by
      rw [Frame.stepOnce, Frame.hasProgram, Machine.hasProgram, hrun, hprogram]
      rfl
    have hin : (c.frame d).pos < w.size := hpos.symm ▸ hp
    have hb : w.Becomes ((c.frame d).execute w).2 :=
      (World.Becomes.refl w).act (.execute (c.frame d)) hin rfl (by rw [Deed.act, hstep])
    have hrespects : World.Respects c.pos w ((c.frame d).execute w).2 := by
      have h := (c.frame d).respects_execute w
      rwa [show (c.frame d).pos = c.pos from hpos] at h
    have hruns : (c.setFrame d ((c.frame d).execute w).1).Runs program := by
      intro e
      by_cases he : e = d
      · rw [he, setFrame, PerFacing.set, PerFacing.get_modify_same, Frame.program_execute, hrun]
      · rw [setFrame, PerFacing.set, PerFacing.get_modify_other _ _ he]
        exact hr e
    obtain ⟨c', v, hsteps, hc', hv, hsires⟩ := ih
      (setFrame_placed hc (f := ((c.frame d).execute w).1) hpos hfacing) (hb.size.symm ▸ hp) hruns
      (hb.sound hw)
    refine ⟨c', v, ?_, hc', hrespects.trans hv, fun q sire hs => ?_⟩
    · simp only [stepFrames, hstep]
      exact hsteps
    · rcases hsires q sire hs with hs | hs
      · rw [(c.frame d).intake_execute hw hin] at hs
        rcases List.mem_append.1 hs with hs | hs
        · exact .inl hs
        · obtain ⟨o, ho, rfl⟩ := List.mem_map.1 hs
          exact .inr (((c.frame d).of_mem_offers w o (List.mem_of_mem_filter ho)).2.trans hrun)
      · exact .inr hs

/-- Acts from a living tile leave every other cell as its tile wants it to be. -/
theorem Stands.respects {config : Config α} {programs : List (Program FrameOp)} {pos : Nat}
    (hc : c.Stands config programs w) (h : World.Respects pos w v)
    (hl : (w.tile pos).live = true) : c.Stands config programs v := by
  refine ⟨hc.placed, h.stays.size.symm ▸ hc.lt, ?_⟩
  exact hc.fits.congr (h.abides _).live (fun _ => (h.abides _).ids) (h.rests hl _)

end Cell

/-- Frames neither found nor kill. -/
theorem World.Respects.population {pos : Nat} (h : World.Respects pos w v) :
    v.population = w.population := by
  simp only [World.population, h.stays.size, (h.abides _).live]

namespace Dish

variable {config : Config α} {programs : List (Program FrameOp)} {c : Cell α}

theorem ready_runs {program : Program FrameOp} (tick : Tick) (hc : c.Placed) (hp : c.pos < w.size)
    (hr : c.Runs program) : (ready tick c w).1.Runs program ∧
      World.Respects c.pos w (ready tick c w).2 := by
  obtain ⟨hruns, hrespects⟩ := Cell.advanceEnvironment_runs hc hr tick w
  have hdoes := Cell.advanceEnvironment_does hc hp tick
  obtain ⟨hruns', hrespects'⟩ := Cell.queueMessages_runs hdoes.placed hruns
    (c.advanceEnvironment tick w).2.2
  exact ⟨hruns', hrespects.trans hrespects'⟩

/-- The second visit of a cell of the dish. -/
theorem exists_act (hprograms : ∀ program ∈ programs, program.isEmpty = false)
    (hw : w.Peopled config programs) (hc : c.Stands config programs w) (tick : Tick) :
    ∃ c' w', act tick c w = .ok (c', w') ∧ c'.pos = c.pos ∧
      (w'.Peopled config programs ∧ w'.population = w.population) ∧ c'.Stands config programs w' ∧
      ∀ e : Cell α, e.pos ≠ c.pos → e.Stands config programs w → e.Stands config programs w' := by
  cases hl : (w.tile c.pos).live with
  | false =>
    refine ⟨c, w, ?_, rfl, ⟨hw, rfl⟩, hc, fun _ _ he => he⟩
    rw [act, hl]
    rfl
  | true =>
    obtain ⟨⟨program, hp, hr⟩, ids, hids, hlength⟩ := hc.fits.inhabited hl
    have hready := ready_does tick hc.placed hc.lt
    obtain ⟨hruns, hrespects⟩ := ready_runs tick hc.placed hc.lt hr
    obtain ⟨c', v, hsteps, hc', hv, hsires⟩ := Cell.stepFrames_runs Direction.all hready.placed
      (hready.lt hc.lt) hruns (hprograms program hp) (hready.becomes.sound hw.sound)
    have hact : act tick c w = .ok (c', v) := by
      rw [act_eq hl, hsteps]
      rfl
    have hdoes := act_does hc.placed hc.lt hact
    have hall : World.Respects c.pos w v := hrespects.trans (hready.pos ▸ hv)
    have hstands : c.Stands config programs v := hc.respects hall hl
    refine ⟨c', v, hact, hdoes.pos,
      ⟨⟨hdoes.becomes.sound hw.sound, ?_, fun q d => ?_, fun q sire hs => ?_⟩, hall.population⟩,
      ⟨hdoes.placed, ?_, ?_⟩, fun e _ he => he.respects hall hl⟩
    · exact hall.stays.config.trans hw.config_eq
    · rw [(hall.abides q).paused]
      exact hw.paused q d
    · rcases hsires q sire hs with hs | hs
      · rw [intake_ready] at hs
        exact hw.sires q sire hs
      · exact hs ▸ hp
    · rw [hdoes.pos]
      exact hstands.lt
    · rw [hdoes.pos]
      have hlive := (hall.abides c.pos).live.trans hl
      exact ⟨fun _ => ⟨⟨program, hp, hc'⟩, (hstands.fits.inhabited hlive).ids⟩,
        fun h => absurd (hlive.symm.trans h) (by decide)⟩

/-! ## Deaths -/

/-- When a channel grows older, nothing else happens. -/
theorem tile_age (w : World α) (pos q : Nat) :
    (w.tile q).Abides ((w.modifyChannel pos (·.advanceAges 1)).tile q) ∧
      (w.tile q).Rests ((w.modifyChannel pos (·.advanceAges 1)).tile q) := by
  rw [World.modifyChannel, World.tile_modify]
  split
  · exact ⟨⟨rfl, (w.tile q).channel.ids_advanceAges 1, rfl, fun _ => rfl⟩, ⟨rfl, rfl, rfl⟩⟩
  · exact ⟨.refl _, .refl _⟩

theorem stands_age {pos : Nat} (hc : c.Stands config programs w) :
    c.Stands config programs (w.modifyChannel pos (·.advanceAges 1)) := by
  obtain ⟨habides, hrests⟩ := tile_age w pos c.pos
  refine ⟨hc.placed, ?_, hc.fits.congr habides.live (fun _ => habides.ids) fun _ => hrests⟩
  rw [World.modifyChannel, World.size_modify]
  exact hc.lt

theorem population_age (w : World α) (pos : Nat) :
    (w.modifyChannel pos (·.advanceAges 1)).population = w.population := by
  have hsize : (w.modifyChannel pos (·.advanceAges 1)).size = w.size := World.size_modify _ _ _
  simp only [World.population, hsize, (tile_age w pos _).1.live]

/-- A cell that is blanked on a tile that is emptied stands there still. -/
theorem stands_emptied (hw : w.Peopled config programs) (hc : c.Stands config programs w)
    {change : Tile α → Tile α} (hempty : ∀ t : Tile α, t.Emptied (change t)) :
    Cell.Stands { c with frames := c.frames.map (·.blank) } config programs
      (w.modify c.pos change) := by
  refine ⟨fun d => ?_, (World.size_modify w c.pos change).symm ▸ hc.lt, ?_⟩
  · rw [PerFacing.get_map]
    exact hc.placed d
  · rw [World.tile_modify_same _ _ hc.lt]
    refine Cell.fits_of_emptied (fun d => ?_) (hempty _) (hw.paused c.pos)
    rw [PerFacing.get_map]
    exact Frame.blank_blank _

theorem paused_emptied (hw : w.Peopled config programs) (pos : Nat) {change : Tile α → Tile α}
    (hempty : ∀ t : Tile α, t.Emptied (change t)) (q : Nat) (d : Direction) :
    (((w.modify pos change).tile q).controls.get d).paused.length = config.nlev + 1 := by
  rw [World.tile_modify]
  split
  · rw [(hempty _).controls, PerFacing.get_map, Controls.reset_eq_new (hw.paused q d)]
    exact List.length_replicate
  · exact hw.paused q d

/-- The third visit of a cell of the dish. -/
theorem exists_retire (hw : w.Peopled config programs) (hc : c.Stands config programs w) :
    ∃ deaths c' w', retire c w = (deaths, c', w') ∧ c'.pos = c.pos ∧
      (w'.Peopled config programs ∧ w'.population + deaths = w.population) ∧
      c'.Stands config programs w' ∧
      ∀ e : Cell α, e.pos ≠ c.pos → e.Stands config programs w → e.Stands config programs w' := by
  have hdoes := retire_does hc.placed hc.lt
  obtain ⟨deeds, ids, hh, -⟩ := hdoes.becomes
  have hsound := hdoes.becomes.sound hw.sound
  have hconfig := hh.ground.1.trans hw.config_eq
  have hsires : ∀ q, ∀ sire ∈ ((retire c w).2.2.tile q).intake, sire.program ∈ programs := by
    intro q sire hs
    rw [intake_retire hc.placed hc.lt] at hs
    exact hw.sires q sire hs
  rcases retire_cases hc.placed hc.lt with ⟨-, he⟩ | ⟨hm, change, hempty, he⟩
  · rw [he] at hsound hconfig hsires
    refine ⟨_, _, _, he, rfl, ⟨⟨hsound, hconfig, fun q d => ?_, hsires⟩, population_age w c.pos⟩,
      stands_age hc, fun e _ he => stands_age he⟩
    rw [(tile_age w c.pos q).1.paused]
    exact hw.paused q d
  · rw [he] at hsound hconfig hsires
    -- Only a living tile can be marked.
    have hlive : (w.tile c.pos).live = true := by
      cases hl : (w.tile c.pos).live with
      | true => rfl
      | false => exact absurd (hc.fits.vacant hl).mark hm
    refine ⟨_, _, _, he, rfl, ⟨⟨hsound, hconfig, fun q d => ?_, hsires⟩, ?_⟩,
      stands_age (stands_emptied hw hc hempty), fun e hne he => stands_age ?_⟩
    · rw [(tile_age (w.modify c.pos change) c.pos q).1.paused]
      exact paused_emptied hw c.pos hempty q d
    · have hcount := World.population_update (w.size_modify c.pos change)
        (fun q hq => by rw [World.tile_modify_other _ _ hq]) hc.lt
      rw [World.tile_modify_same _ _ hc.lt, (hempty _).live, hlive] at hcount
      rw [population_age]
      exact hcount
    · refine ⟨he.placed, (World.size_modify w c.pos change).symm ▸ he.lt, ?_⟩
      rw [World.tile_modify_other _ _ hne]
      exact he.fits

/-! ## Steps -/

section Phases

variable {cells : List (Cell α)} {tick : Tick}

/-- The first visits go well, and the population grows by the births. -/
theorem exists_intakePhase (hw : w.Peopled config programs) (hnodup : (cells.map (·.pos)).Nodup)
    (hc : ∀ c ∈ cells, c.Stands config programs w) (tick : Tick) : ∃ intake cells' v,
      intakePhase tick cells w = .ok (intake, cells', v) ∧
      cells'.map (·.pos) = cells.map (·.pos) ∧
      (v.Peopled config programs ∧ v.population = w.population + intake.births) ∧
      ∀ c ∈ cells', c.Stands config programs v := by
  obtain ⟨reports, cells', v, hround, hpos, ⟨hv, hcount⟩, hc', -⟩ :=
    exists_round (takeIn tick) (K := fun w c => c.Stands config programs w)
      (I := fun (reports : List Intake) v => v.Peopled config programs ∧
        v.population = w.population + (reports.map (·.births)).sum)
      (fun reports c u hI hK => by
        obtain ⟨report, c', u', hvisit, hp, ⟨hu', hn⟩, hrest⟩ := exists_takeIn hI.1 hK tick
        refine ⟨report, c', u', hvisit, hp, ⟨hu', ?_⟩, hrest⟩
        rw [hn, hI.2, List.map_append, List.sum_append, List.map_singleton, List.sum_singleton,
          Nat.add_assoc])
      cells hnodup [] w ⟨hw, rfl⟩ hc
  exact ⟨_, cells', v, intakePhase_of_round hround, hpos, ⟨hv, hcount⟩, hc'⟩

/-- The second visits go well if no program is empty, and the population stays the same. -/
theorem exists_actPhase (hprograms : ∀ program ∈ programs, program.isEmpty = false)
    (hw : w.Peopled config programs) (hnodup : (cells.map (·.pos)).Nodup)
    (hc : ∀ c ∈ cells, c.Stands config programs w) (tick : Tick) : ∃ cells' v,
      actPhase tick cells w = .ok (cells', v) ∧ cells'.map (·.pos) = cells.map (·.pos) ∧
      (v.Peopled config programs ∧ v.population = w.population) ∧
      ∀ c ∈ cells', c.Stands config programs v := by
  obtain ⟨reports, cells', v, hround, hpos, hv, hc', -⟩ :=
    exists_round (fun c w => (act tick c w).map ((), ·))
      (K := fun w c => c.Stands config programs w)
      (I := fun (_ : List Unit) v => v.Peopled config programs ∧ v.population = w.population)
      (fun reports c u hI hK => by
        obtain ⟨c', u', hvisit, hp, ⟨hu', hn⟩, hrest⟩ := exists_act hprograms hI.1 hK tick
        exact ⟨(), c', u', by rw [hvisit]; rfl, hp, ⟨hu', hn.trans hI.2⟩, hrest⟩)
      cells hnodup [] w ⟨hw, rfl⟩ hc
  exact ⟨cells', v, actPhase_of_round hround, hpos, hv, hc'⟩

/-- The last visits take the deaths off the population. -/
theorem exists_deathPhase (hw : w.Peopled config programs) (hnodup : (cells.map (·.pos)).Nodup)
    (hc : ∀ c ∈ cells, c.Stands config programs w) : ∃ deaths cells' v,
      deathPhase cells w = (deaths, cells', v) ∧ cells'.map (·.pos) = cells.map (·.pos) ∧
      (v.Peopled config programs ∧ v.population + deaths = w.population) ∧
      ∀ c ∈ cells', c.Stands config programs v := by
  obtain ⟨reports, cells', v, hround, hpos, ⟨hv, hcount⟩, hc', -⟩ :=
    exists_round (fun c w => (.ok (retire c w) : Except FrameError _))
      (K := fun w c => c.Stands config programs w)
      (I := fun (reports : List Nat) v => v.Peopled config programs ∧
        v.population + reports.sum = w.population)
      (fun reports c u hI hK => by
        obtain ⟨deaths, c', u', hvisit, hp, ⟨hu', hn⟩, hrest⟩ := exists_retire hI.1 hK
        refine ⟨deaths, c', u', congrArg Except.ok hvisit, hp, ⟨hu', ?_⟩, hrest⟩
        have hsum := hI.2
        rw [List.sum_append, List.sum_singleton]
        omega)
      cells hnodup [] w ⟨hw, rfl⟩ hc
  exact ⟨_, cells', v, deathPhase_of_round hround, hpos, ⟨hv, hcount⟩, hc'⟩

end Phases

/-- World and cells of the dish agree on who lives where. -/
structure Orderly (d : Dish α) (config : Config α) (programs : List (Program FrameOp)) : Prop where
  laid : d.Laid
  peopled : d.world.Peopled config programs
  stands : ∀ c ∈ d.cells, c.Stands config programs d.world

variable {d d' : Dish α}

/-- A step of an orderly dish comes to its end and leaves the dish orderly. -/
theorem Orderly.exists_step (h : d.Orderly config programs)
    (hprograms : ∀ program ∈ programs, program.isEmpty = false) : ∃ summary d',
      d.step = .ok (summary, d') ∧ d'.Orderly config programs ∧
      summary.live = d'.world.liveCount ∧
      summary.live + summary.deaths = d.world.liveCount + summary.births := by
  have hnodup : (d.cells.map (·.pos)).Nodup := h.laid.positions ▸ List.nodup_range
  obtain ⟨intake, cells₁, w₁, h₁, pos₁, ⟨hw₁, hn₁⟩, hc₁⟩ :=
    exists_intakePhase h.peopled hnodup h.stands d.tick
  obtain ⟨cells₂, w₂, h₂, pos₂, ⟨hw₂, hn₂⟩, hc₂⟩ :=
    exists_actPhase hprograms hw₁ (pos₁ ▸ hnodup) hc₁ d.tick
  obtain ⟨deaths, cells₃, w₃, h₃, pos₃, ⟨hw₃, hn₃⟩, hc₃⟩ :=
    exists_deathPhase hw₂ (pos₂ ▸ pos₁ ▸ hnodup) hc₂
  have hstep : d.step = .ok (⟨d.tick, w₃.liveCount, intake.births, deaths, intake.refunds,
      w₃.totalResource, w₃.pendingEndowment⟩, ⟨w₃, cells₃, d.tick.next⟩) := by
    simp only [step, h₁, Except.mapError]
    change (Except.mapError DishError.frame (actPhase d.tick cells₁ w₁) >>= _) = _
    rw [h₂]
    change Except.ok _ = _
    rw [h₃]
  refine ⟨_, _, hstep, ⟨(of_step_eq_ok h.laid hstep).2.1, hw₃, hc₃⟩, rfl, ?_⟩
  simp only [World.liveCount_eq_population]
  omega

/-! ## Growth -/

/-- The dishes that come about when programs that are not empty are seeded. The programs are listed,
the last seeded first. -/
inductive Grown (config : Config α) : List (Program FrameOp) → Dish α → Prop where
  | new {d : Dish α} : Dish.new config = .ok d → Grown config [] d
  | seed {programs d d' pos program resource} : Grown config programs d →
      program.isEmpty = false → d.seed pos program resource = .ok d' →
      Grown config (program :: programs) d'
  | step {programs d d' summary} : Grown config programs d → d.step = .ok (summary, d') →
      Grown config programs d'

theorem Grown.isEmpty (h : Grown config programs d) :
    ∀ program ∈ programs, program.isEmpty = false := by
  induction h with
  | new _ =>
    rintro program ⟨⟩
  | seed _ hprogram _ ih =>
    intro p hp
    cases hp with
    | head => exact hprogram
    | tail _ hp => exact ih p hp
  | step _ _ ih => exact ih

theorem buildCells_blank (config : Config α) (n pos : Nat) (rng : Generator) :
    ∀ c ∈ buildCells config n pos rng, ∀ d, (c.frames.get d).Blank := by
  induction n generalizing pos rng with
  | zero =>
    rintro c ⟨⟩
  | succ n ih =>
    intro c hc
    cases hc with
    | head =>
      intro d
      match d with
      | 0 | 1 | 2 | 3 => exact Frame.blank_build _ _ _ _
    | tail _ hc => exact ih _ _ c hc

/-- In a new dish everything is vacant. -/
theorem orderly_new (h : Dish.new config = .ok d) : d.Orderly config [] := by
  obtain ⟨hworld, hlaid⟩ := of_new_eq_ok h
  have htile := World.tile_new hworld
  refine ⟨hlaid, ⟨World.sound_new hworld, (World.of_new_eq_ok hworld).2.1, fun q e => ?_,
    fun q sire hs => ?_⟩, fun c hc => ⟨hlaid.placed c hc, hlaid.lt hc, ?_, fun _ => ⟨?_, ?_, ?_, ?_⟩⟩⟩
  · rw [htile, Tile.barren, PerFacing.get_replicate]
    exact List.length_replicate
  · rw [htile] at hs
    cases hs
  · intro hlive
    rw [htile] at hlive
    cases hlive
  · obtain ⟨w, hw, hd⟩ := bind_eq_ok h
    cases hd
    exact buildCells_blank config _ _ _ c hc
  · rw [htile]
    rfl
  · rw [htile]
    rfl
  · rw [htile]
    rfl

/-- More programs may be given than are needed. -/
theorem stands_cons (hc : c.Stands config programs w) (program : Program FrameOp) :
    c.Stands config (program :: programs) w := by
  refine ⟨hc.placed, hc.lt, fun hlive => ?_, hc.fits.vacant⟩
  obtain ⟨⟨p, hp, hr⟩, hids⟩ := hc.fits.inhabited hlive
  exact ⟨⟨p, List.mem_cons_of_mem program hp, hr⟩, hids⟩

section Seed

variable {pos : Nat} {program : Program FrameOp} {resource : α}

/-- A tile on which a founder was put. -/
theorem exists_tile_seeded (hp : pos < w.size) (tick : Tick) (resource : α) (q : Nat) :
    ∃ stockpile, (((w.found pos tick).modifyStockpile pos (·.grow resource)).tile q) =
      if q = pos then
        { w.tile q with
          channel := (Channel.founder w.config.levels w.rng).1
          family := .settled none tick none
          stockpile }.occupy
      else w.tile q := by
  have hfound : pos < (w.found pos tick).size := (World.size_modify _ _ _).symm ▸ hp
  rw [World.modifyStockpile, World.tile_modify, World.tile_found hp]
  by_cases hq : q = pos
  · rw [if_pos ⟨hq, hfound⟩, if_pos hq]
    exact ⟨_, (if_pos hq).symm⟩
  · rw [if_neg fun h => hq h.1, if_neg hq]
    exact ⟨(w.tile q).stockpile, (if_neg hq).symm⟩

/-- What seeding does to the world and to one cell. -/
theorem of_seed (hd : d.Laid) (h : d.seed pos program resource = .ok d') :
    ∃ cell, d.cells[pos]? = some cell ∧ d' = { d with
      world := (d.world.found pos d.tick).modifyStockpile pos (·.grow resource)
      cells := d.cells.set pos
        { cell with frames := cell.frames.map fun f => f.blank.setProgram program } } := by
  unfold seed at h
  split at h
  · cases h
  · next cell hcell =>
    obtain ⟨hplaced, hpos, hlt⟩ := hd.of_getElem? hcell
    obtain ⟨stockpile, htile⟩ := exists_tile_seeded hlt d.tick resource pos
    have htidy : (((d.world.found pos d.tick).modifyStockpile pos (·.grow resource)).tile
        cell.pos).IsTidy := by
      rw [hpos, htile, if_pos rfl]
      exact Tile.isTidy_occupy _
    dsimp only at h
    rw [Cell.load_of_isTidy hplaced htidy] at h
    exact ⟨cell, hcell, (Except.ok.inj h).symm⟩

/-- Seeding keeps world and cells in agreement. -/
theorem Orderly.seed (h : d.Orderly config programs) (hs : d.seed pos program resource = .ok d') :
    d'.Orderly config (program :: programs) := by
  obtain ⟨⟨deeds, ids, hh, -⟩, hlaid⟩ := of_seed_eq_ok h.laid hs
  obtain ⟨cell, hcell, rfl⟩ := of_seed h.laid hs
  obtain ⟨hplaced, hpos, hlt⟩ := h.laid.of_getElem? hcell
  have htile := exists_tile_seeded hlt d.tick resource
  refine ⟨hlaid, ⟨h.peopled.sound.history hh, hh.ground.1.trans h.peopled.config_eq, fun q e => ?_,
    fun q sire hw => ?_⟩, fun c hc => ?_⟩
  · obtain ⟨stockpile, hq⟩ := htile q
    rw [hq]
    split
    · rw [Tile.occupy, Tile.tidy, PerFacing.get_map, Controls.reset_eq_new (h.peopled.paused q e)]
      exact List.length_replicate
    · exact h.peopled.paused q e
  · change sire ∈ (World.tile _ q).intake at hw
    rw [World.intake_modifyStockpile, World.intake_found] at hw
    exact List.mem_cons_of_mem program (h.peopled.sires q sire hw)
  · obtain ⟨i, hi⟩ := List.mem_iff_getElem?.1 hc
    obtain ⟨hcp, hci, hclt⟩ := hlaid.of_getElem? hi
    obtain ⟨stockpile, hq⟩ := htile i
    refine ⟨hcp, hci ▸ hclt, ?_⟩
    rw [hci]
    rw [hq]
    rw [List.getElem?_set] at hi
    by_cases hip : pos = i
    · -- The seeded tile has a founder, and its cell the program.
      subst hip
      rw [if_pos rfl, if_pos (List.getElem?_eq_some_iff.1 hcell).1] at hi
      obtain rfl := Option.some.inj hi
      rw [if_pos rfl]
      refine ⟨fun _ => ⟨⟨program, List.mem_cons_self, fun e => ?_⟩, _, rfl, ?_⟩, fun h => by cases h⟩
      · rw [PerFacing.get_map]
        rfl
      · rw [Generator.length_draw, length_levels h.peopled]
    · rw [if_neg hip] at hi
      have hstands := stands_cons (h.stands c (List.mem_of_getElem? hi)) program
      rw [if_neg (Ne.symm hip), ← hci]
      exact hstands.fits

/-- A program can be seeded wherever there is a tile. -/
theorem exists_seed (hd : d.Laid) (hp : pos < d.world.size) (program : Program FrameOp)
    (resource : α) : ∃ d', d.seed pos program resource = .ok d' := by
  have hlen : pos < d.cells.length := by
    rw [← List.length_map (·.pos), hd.positions, List.length_range]
    exact hp
  simp only [seed, List.getElem?_eq_getElem hlen]
  exact ⟨_, rfl⟩

end Seed

/-- Whatever is seeded into a dish, its world and its cells agree at all times. -/
theorem Grown.orderly (h : Grown config programs d) : d.Orderly config programs := by
  induction h with
  | new h => exact orderly_new h
  | seed _ _ hs ih => exact ih.seed hs
  | step hd hs ih =>
    obtain ⟨summary, d', hstep, hd', -⟩ := ih.exists_step hd.isEmpty
    obtain ⟨-, rfl⟩ := Prod.mk.inj (Except.ok.inj (hs.symm.trans hstep))
    exact hd'

/-- The life cycle of a dish that was seeded with programs that are not empty. There is one cell for
every tile. A tile lives just when all four frames of its cell have a program; then they run the same
one of the programs seeded, and the channel has an identifier at every level. On a tile that does not
live nothing is left of an occupant. Every tile can be seeded. The next step comes to its end, and
those who live then are those who lived before and were born, without the dead. -/
theorem life_cycle (h : Grown config programs d) :
    d.cells.map (·.pos) = List.range d.world.size ∧
    (∀ c ∈ d.cells,
      ((d.world.tile c.pos).live = true ↔ c.hasProgram = true) ∧
      ((d.world.tile c.pos).live = true →
        c.Inhabited programs config.nlev (d.world.tile c.pos)) ∧
      ((d.world.tile c.pos).live = false → c.Vacant config.nlev (d.world.tile c.pos))) ∧
    (∀ pos < d.world.size, ∀ program resource, ∃ d', d.seed pos program resource = .ok d') ∧
    ∃ summary d', d.step = .ok (summary, d') ∧ summary.live = d'.world.liveCount ∧
      summary.live + summary.deaths = d.world.liveCount + summary.births := by
  have horderly := h.orderly
  obtain ⟨summary, d', hstep, -, hlive, hcount⟩ := horderly.exists_step h.isEmpty
  refine ⟨horderly.laid.positions, fun c hc => ?_,
    fun _ hp program resource => exists_seed horderly.laid hp program resource,
    summary, d', hstep, hlive, hcount⟩
  have hfits := (horderly.stands c hc).fits
  exact ⟨hfits.live_iff h.isEmpty, hfits.inhabited, hfits.vacant⟩

/-- A founder in the shaft has sent a sire to the other tile, which settles in the next step. -/
theorem life_cycle_shaft : ∃ d summary d', Grown shaft [World.spawner] d ∧
    d.world.liveCount = 1 ∧ d.step = .ok (summary, d') ∧ summary.births = 1 ∧
    summary.live + summary.deaths = 2 := by
  have hrun : yields (Dish.new shaft) (fun d => yields (d.seed 0 World.spawner 10) fun d =>
      yields d.step fun r => yields r.2.step fun s =>
        decide (r.2.world.liveCount = 1 ∧ s.1.births = 1)) = true := by decide +kernel
  obtain ⟨d₀, hnew, h⟩ := of_yields hrun
  obtain ⟨d₁, hseed, h⟩ := of_yields h
  obtain ⟨⟨summary₁, d⟩, hfirst, h⟩ := of_yields h
  obtain ⟨⟨summary, d'⟩, hsecond, h⟩ := of_yields h
  obtain ⟨hone, hbirths⟩ := of_decide_eq_true h
  have hgrown : Grown shaft [World.spawner] d := ((Grown.new hnew).seed rfl hseed).step hfirst
  obtain ⟨-, -, -, summary', d'', hstep, -, hcount⟩ := life_cycle hgrown
  obtain ⟨rfl, rfl⟩ := Prod.mk.inj (Except.ok.inj (hsecond.symm.trans hstep))
  rw [hone, hbirths] at hcount
  exact ⟨d, summary, d', hgrown, hone, hsecond, hbirths, hcount⟩

end Dish

end Vivarium
