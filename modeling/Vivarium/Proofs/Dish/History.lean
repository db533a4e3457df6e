import Vivarium.Dish
import Vivarium.Proofs.World.Sound
/-!
# Histories of a dish

Whatever a dish does to its world is a sequence of deeds. So what holds throughout every history of
a world holds of the world of every dish that can be reached.
-/
namespace Vivarium

variable {α : Type} [Scalar α] {w w' v : World α}

/-! ## Deeds in a row -/

namespace World

/-- Deeds may be continued by further deeds. -/
theorem History.trans {w₀ : World α} {deeds more : List (Deed α)} {ids news : List ChannelId}
    (h : History w₀ deeds ids w) (h' : History w more news v) :
    History w₀ (deeds ++ more) (ids ++ news) v := by
  induction h' with
  | start =>
    rwa [List.append_nil, List.append_nil]
  | act d _ hd ih =>
    rw [← List.append_assoc, ← List.append_assoc]
    exact ih.act d hd

/-- Deeds change neither the settings nor the grid. -/
theorem History.ground {w₀ : World α} {deeds : List (Deed α)} {ids : List ChannelId}
    (h : History w₀ deeds ids w) :
    w.config = w₀.config ∧ w.grid = w₀.grid ∧ w.size = w₀.size := by
  refine Kept.history (I := fun _ _ w => w.config = w₀.config ∧ w.grid = w₀.grid ∧
    w.size = w₀.size) ?_ h ⟨rfl, rfl, rfl⟩
  rintro _ _ w _ _ w' ⟨hc, hg, hn⟩ hs
  obtain ⟨hc', hg', hn', -⟩ := hs.ground
  exact ⟨hc'.trans hc, hg'.trans hg, hn'.trans hn⟩

/-- The world becomes another by deeds that bring no growth. -/
def Becomes (w v : World α) : Prop :=
  ∃ deeds ids, History w deeds ids v ∧ deeds.flatMap (·.growth) = []

namespace Becomes

theorem refl (w : World α) : w.Becomes w := ⟨[], [], .start, rfl⟩

theorem trans (h : w.Becomes w') (h' : w'.Becomes v) : w.Becomes v := by
  obtain ⟨deeds, ids, hw, hg⟩ := h
  obtain ⟨more, news, hv, hm⟩ := h'
  refine ⟨deeds ++ more, ids ++ news, hw.trans hv, ?_⟩
  rw [List.flatMap_append, hg, hm, List.append_nil]

theorem size (h : w.Becomes v) : v.size = w.size := by
  obtain ⟨_, _, hw, -⟩ := h
  exact hw.ground.2.2

theorem sound (h : w.Becomes v) (hw : w.Sound) : v.Sound := by
  obtain ⟨_, _, hh, -⟩ := h
  exact hw.history hh

/-- One more deed. -/
theorem act (h : w.Becomes v) (d : Deed α) (hp : d.pos < w.size) (hg : d.growth = [])
    (hd : d.act v = .ok w') : w.Becomes w' := by
  have hperform : d.perform v = .ok w' := by
    rw [Deed.perform, if_pos (h.size.symm ▸ hp)]
    exact hd
  refine h.trans ⟨[d], d.drawn v, ?_, ?_⟩
  · exact History.start.act d hperform
  · rw [List.flatMap_singleton, hg]

end Becomes

end World

/-! ## Cells -/

namespace PerFacing

variable {β σ : Type}

/-- What each visit of a walk keeps, of the value visited and of the state, the walk keeps. -/
theorem walk_induction {f : β → σ → β × σ} {P : Direction → β → Prop} {I : σ → Prop}
    (hf : ∀ d x s, P d x → I s → P d (f x s).1 ∧ I (f x s).2) (q : PerFacing β)
    (hq : ∀ d, P d (q.get d)) (s : σ) (hs : I s) :
    (∀ d, P d ((q.walk f s).1.get d)) ∧ I (q.walk f s).2 := by
  obtain ⟨h₀, i₀⟩ := hf 0 q.up s (hq 0) hs
  obtain ⟨h₁, i₁⟩ := hf 1 q.right _ (hq 1) i₀
  obtain ⟨h₂, i₂⟩ := hf 2 q.down _ (hq 2) i₁
  obtain ⟨h₃, i₃⟩ := hf 3 q.left _ (hq 3) i₂
  constructor
  · intro d
    match d with
    | 0 => exact h₀
    | 1 => exact h₁
    | 2 => exact h₂
    | 3 => exact h₃
  · exact i₃

end PerFacing

/-- The frames of a cell look out of their own sides. -/
def Cell.Placed (c : Cell α) : Prop :=
  ∀ d, (c.frames.get d).pos = c.pos ∧ (c.frames.get d).facing = d

namespace Cell

variable {c c₁ c₂ : Cell α}

/-- A cell acts on a world by deeds and stays in place. -/
structure Does (c : Cell α) (w : World α) (c' : Cell α) (w' : World α) : Prop where
  pos : c'.pos = c.pos
  placed : c'.Placed
  becomes : w.Becomes w'

theorem Does.trans (h : c.Does w c₁ w') (h' : c₁.Does w' c₂ v) : c.Does w c₂ v :=
  ⟨h'.pos.trans h.pos, h'.placed, h.becomes.trans h'.becomes⟩

theorem Does.lt (h : c.Does w c₁ w') (hp : c.pos < w.size) : c₁.pos < w'.size := by
  rw [h.pos, h.becomes.size]
  exact hp

/-- What every frame of a walk does, the cell does. -/
theorem walk_does {σ : Type} (hc : c.Placed) (hp : c.pos < w.size)
    (visit : Frame α → σ → Frame α × σ) (world : σ → World α)
    (hv : ∀ f s, f.pos < w.size → w.Becomes (world s) → (visit f s).1.pos = f.pos ∧
      (visit f s).1.facing = f.facing ∧ w.Becomes (world (visit f s).2))
    (s : σ) (hs : world s = w) :
    c.Does w { c with frames := (c.frames.walk visit s).1 } (world (c.frames.walk visit s).2) := by
  have hwalk := PerFacing.walk_induction (f := visit)
    (P := fun d f => f.pos = c.pos ∧ f.facing = d) (I := fun s => w.Becomes (world s))
    (fun d f s hf hs => by
      obtain ⟨hpos, hd, hb⟩ := hv f s (hf.1.symm ▸ hp) hs
      exact ⟨⟨hpos.trans hf.1, hd.trans hf.2⟩, hb⟩) c.frames hc s (hs ▸ .refl w)
  exact ⟨rfl, hwalk.1, hwalk.2⟩

theorem reset_does (hc : c.Placed) (hp : c.pos < w.size) : c.Does w (c.reset w).1 (c.reset w).2 :=
  walk_does hc hp Frame.reset id (fun f _ hf hb => ⟨rfl, rfl, hb.act (.reset f) hf rfl rfl⟩) w rfl

theorem load_does (hc : c.Placed) (hp : c.pos < w.size) (program : Program FrameOp) :
    c.Does w (c.load program w).1 (c.load program w).2 :=
  walk_does hc hp (fun f w => ((f.reset w).1.setProgram program, (f.reset w).2)) id
    (fun f _ hf hb => ⟨rfl, rfl, hb.act (.reset f) hf rfl rfl⟩) w rfl

theorem queueMessages_does (hc : c.Placed) (hp : c.pos < w.size) :
    c.Does w (c.queueMessages w).1 (c.queueMessages w).2 :=
  walk_does hc hp Frame.queueMessages id
    (fun f _ hf hb => ⟨rfl, rfl, hb.act (.messages f) hf rfl rfl⟩) w rfl

theorem advanceEnvironment_frame (f : Frame α) (v : World α) (tick : Tick) :
    (f.advanceEnvironment v tick).2.1.pos = f.pos ∧
      (f.advanceEnvironment v tick).2.1.facing = f.facing := by
  unfold Frame.advanceEnvironment
  split
  · exact ⟨rfl, rfl⟩
  · exact ⟨rfl, rfl⟩

theorem advanceEnvironment_does (hc : c.Placed) (hp : c.pos < w.size) (tick : Tick) :
    c.Does w (c.advanceEnvironment tick w).2.1 (c.advanceEnvironment tick w).2.2 :=
  walk_does hc hp (fun f (s : List Tag × World α) =>
      ((f.advanceEnvironment s.2 tick).2.1, s.1 ++ (f.advanceEnvironment s.2 tick).1,
        (f.advanceEnvironment s.2 tick).2.2)) (·.2)
    (fun f s hf hb => by
      obtain ⟨hpos, hfacing⟩ := advanceEnvironment_frame f s.2 tick
      exact ⟨hpos, hfacing, hb.act (.environment f tick) hf rfl rfl⟩) ([], w) rfl

omit [Scalar α] in
theorem setFrame_placed (hc : c.Placed) {d : Direction} {f : Frame α} (hp : f.pos = c.pos)
    (hd : f.facing = d) : (c.setFrame d f).Placed := by
  intro e
  by_cases he : e = d
  · rw [he, setFrame, PerFacing.set, PerFacing.get_modify_same]
    exact ⟨hp, hd⟩
  · rw [setFrame, PerFacing.set, PerFacing.get_modify_other _ _ he]
    exact hc e

/-- A frame that steps stays in its place. -/
theorem of_stepOnce_eq_ok {f g : Frame α} (h : f.stepOnce w = .ok (g, v)) :
    g.pos = f.pos ∧ g.facing = f.facing ∧ v = (f.execute w).2 := by
  unfold Frame.stepOnce at h
  by_cases hp : f.hasProgram
  · rw [if_pos hp] at h
    obtain ⟨rfl, rfl⟩ := Prod.mk.inj (Except.ok.inj h)
    exact ⟨rfl, rfl, rfl⟩
  · rw [if_neg hp] at h
    cases h

/-- The frames of a cell step in turn; what they did stays done when one refuses. -/
theorem stepFrames_does (ds : List Direction) (hc : c.Placed) (hp : c.pos < w.size) :
    c.Does w (stepFrames ds c w).2.1 (stepFrames ds c w).2.2 := by
  induction ds generalizing c w with
  | nil => exact ⟨rfl, hc, .refl w⟩
  | cons d rest ih =>
    unfold stepFrames
    cases hs : (c.frame d).stepOnce w with
    | error e => exact ⟨rfl, hc, .refl w⟩
    | ok r =>
      obtain ⟨f, v⟩ := r
      obtain ⟨hpos, hfacing⟩ := hc d
      obtain ⟨hf, hd, -⟩ := of_stepOnce_eq_ok hs
      have hin : (Deed.execute (c.frame d)).pos < w.size := by
        change (c.frames.get d).pos < w.size
        rw [hpos]
        exact hp
      have hb : w.Becomes v := (World.Becomes.refl w).act (.execute (c.frame d)) hin rfl
        (by rw [Deed.act, hs])
      have hdone : c.Does w (c.setFrame d f) v :=
        ⟨rfl, setFrame_placed hc (hf.trans hpos) (hd.trans hfacing), hb⟩
      exact hdone.trans (ih hdone.placed (hb.size.symm ▸ hp))

end Cell

/-! ## Phases -/

namespace Dish

variable {tick : Tick} {c c' : Cell α} {cells cells' : List (Cell α)}

theorem settle_does {settled : Bool} (hc : c.Placed) (hp : c.pos < w.size)
    (h : c.settle tick w = .ok (settled, c', w')) : c.Does w c' w' := by
  obtain ⟨⟨program, v⟩, hs, h⟩ := bind_eq_ok h
  have hb : w.Becomes v := (World.Becomes.refl w).act (.settle c.pos tick) hp rfl
    (by rw [Deed.act, hs]; rfl)
  cases program with
  | none =>
    cases h
    exact ⟨rfl, hc, hb⟩
  | some program =>
    cases h
    have hload := Cell.load_does hc (hb.size.symm ▸ hp) program
    exact ⟨hload.pos, hload.placed, hb.trans hload.becomes⟩

theorem takeIn_does {here : Intake} (hc : c.Placed) (hp : c.pos < w.size)
    (h : takeIn tick c w = .ok (here, c', w')) : c.Does w c' w' := by
  unfold takeIn at h
  by_cases hl : (w.tile c.pos).live
  · rw [if_pos hl] at h
    obtain ⟨⟨n, v⟩, hr, h⟩ := bind_eq_ok h
    cases h
    refine ⟨rfl, hc, (World.Becomes.refl w).act (.refund c.pos) hp rfl ?_⟩
    rw [Deed.act, hr]
    rfl
  · rw [if_neg hl] at h
    obtain ⟨⟨settled, c₁, v⟩, hs, h⟩ := bind_eq_ok h
    cases h
    exact settle_does hc hp hs

theorem act_does (hc : c.Placed) (hp : c.pos < w.size) (h : act tick c w = .ok (c', w')) :
    c.Does w c' w' := by
  unfold act at h
  by_cases hl : (w.tile c.pos).live
  · rw [if_pos hl] at h
    split at h
    next _ c₁ v₁ he =>
    have h₁ := Cell.advanceEnvironment_does hc hp tick
    rw [he] at h₁
    split at h
    next c₂ v₂ hq =>
    have h₂ := Cell.queueMessages_does h₁.placed (h₁.lt hp)
    rw [hq] at h₂
    have h₃ := Cell.stepFrames_does Direction.all h₂.placed (h₂.lt (h₁.lt hp))
    unfold Cell.stepOnce at h
    split at h
    · next c₃ v₃ hs =>
      cases h
      rw [hs] at h₃
      exact (h₁.trans h₂).trans h₃
    · cases h
  · rw [if_neg hl] at h
    cases h
    exact ⟨rfl, hc, .refl w⟩

theorem retire_does (hc : c.Placed) (hp : c.pos < w.size) :
    c.Does w (retire c w).2.1 (retire c w).2.2 := by
  have hdie : w.Becomes (w.applyApoptosis c.pos).2 :=
    (World.Becomes.refl w).act (.die c.pos) hp rfl rfl
  unfold retire
  split
  next mark v hm =>
  rw [hm] at hdie
  cases mark with
  | unmarked => exact ⟨rfl, hc, hdie.act (.age c.pos 1) hp rfl rfl⟩
  | _ =>
    have hreset := Cell.reset_does hc (hdie.size.symm ▸ hp)
    have hp₁ : (c.reset v).1.pos < w.size := hreset.pos.symm ▸ hp
    have hb := (hdie.trans hreset.becomes).act (.age (c.reset v).1.pos 1) hp₁ rfl rfl
    exact ⟨hreset.pos, hreset.placed, hb⟩

/-- Cells act on a world in turn. -/
structure Do (cells : List (Cell α)) (w : World α) (cells' : List (Cell α)) (w' : World α) :
    Prop where
  positions : cells'.map (·.pos) = cells.map (·.pos)
  placed : ∀ c ∈ cells', c.Placed
  becomes : w.Becomes w'

theorem Do.nil (w : World α) : Do [] w [] w := by
  constructor
  · rfl
  · intro c hc
    cases hc
  · exact .refl w

theorem Do.cons {rest rest' : List (Cell α)} (h : c.Does w c' w') (h' : Do rest w' rest' v) :
    Do (c :: rest) w (c' :: rest') v := by
  constructor
  · rw [List.map_cons, List.map_cons, h.pos, h'.positions]
  · intro d hd
    cases hd with
    | head => exact h.placed
    | tail _ hd => exact h'.placed d hd
  · exact h.becomes.trans h'.becomes

/-- After the first cell has acted, the others still stand in their places on the grid. -/
theorem ready_tail {rest : List (Cell α)} (hc : ∀ d ∈ c :: rest, d.Placed ∧ d.pos < w.size)
    (h : c.Does w c' w') : ∀ d ∈ rest, d.Placed ∧ d.pos < w'.size := by
  intro d hd
  obtain ⟨hplaced, hp⟩ := hc d (List.mem_cons_of_mem c hd)
  exact ⟨hplaced, h.becomes.size.symm ▸ hp⟩

theorem intakePhase_do {intake : Intake} (hc : ∀ c ∈ cells, c.Placed ∧ c.pos < w.size)
    (h : intakePhase tick cells w = .ok (intake, cells', w')) : Do cells w cells' w' := by
  induction cells generalizing w cells' intake with
  | nil =>
    cases h
    exact .nil _
  | cons c rest ih =>
    obtain ⟨hplaced, hp⟩ := hc c List.mem_cons_self
    obtain ⟨⟨here, c₁, v⟩, ht, h⟩ := bind_eq_ok h
    obtain ⟨⟨later, rest₁, u⟩, hr, h⟩ := bind_eq_ok h
    cases h
    have hdoes := takeIn_does hplaced hp ht
    exact Do.cons hdoes (ih (ready_tail hc hdoes) hr)

theorem actPhase_do (hc : ∀ c ∈ cells, c.Placed ∧ c.pos < w.size)
    (h : actPhase tick cells w = .ok (cells', w')) : Do cells w cells' w' := by
  induction cells generalizing w cells' with
  | nil =>
    cases h
    exact .nil _
  | cons c rest ih =>
    obtain ⟨hplaced, hp⟩ := hc c List.mem_cons_self
    obtain ⟨⟨c₁, v⟩, ht, h⟩ := bind_eq_ok h
    obtain ⟨⟨rest₁, u⟩, hr, h⟩ := bind_eq_ok h
    cases h
    have hdoes := act_does hplaced hp ht
    exact Do.cons hdoes (ih (ready_tail hc hdoes) hr)

theorem deathPhase_do (hc : ∀ c ∈ cells, c.Placed ∧ c.pos < w.size) :
    Do cells w (deathPhase cells w).2.1 (deathPhase cells w).2.2 := by
  induction cells generalizing w with
  | nil => exact .nil w
  | cons c rest ih =>
    obtain ⟨hplaced, hp⟩ := hc c List.mem_cons_self
    have hdoes := retire_does hplaced hp
    exact Do.cons hdoes (ih (ready_tail hc hdoes))

/-! ## Dishes -/

/-- The cells of a dish are listed by place. -/
structure Laid (d : Dish α) : Prop where
  positions : d.cells.map (·.pos) = List.range d.world.size
  placed : ∀ c ∈ d.cells, c.Placed

variable {config : Config α} {d d' : Dish α}

omit [Scalar α] in
theorem Laid.lt (hd : d.Laid) (hc : c ∈ d.cells) : c.pos < d.world.size := by
  have hm : c.pos ∈ d.cells.map (·.pos) := List.mem_map_of_mem hc
  rw [hd.positions] at hm
  exact List.mem_range.1 hm

/-- Cells that act in turn are still listed by place afterwards. -/
theorem Do.laid (hd : d.Laid) (h : Do d.cells d.world cells w) (tick : Tick) :
    (⟨w, cells, tick⟩ : Dish α).Laid := by
  constructor
  · rw [h.positions, hd.positions, h.becomes.size]
  · exact h.placed

inductive Reachable (config : Config α) : Dish α → Prop where
  | new {d : Dish α} : Dish.new config = .ok d → Reachable config d
  | seed {d d' : Dish α} {pos program resource} : Reachable config d →
      d.seed pos program resource = .ok d' → Reachable config d'
  | step {d d' : Dish α} {summary} : Reachable config d → d.step = .ok (summary, d') →
      Reachable config d'

theorem buildCells_positions (config : Config α) (n pos : Nat) (rng : Generator) :
    (buildCells config n pos rng).map (·.pos) = List.range' pos n := by
  induction n generalizing pos rng with
  | zero => rfl
  | succ n ih => simp only [buildCells, List.map_cons, ih, List.range'_succ, Cell.build]

theorem buildCells_placed (config : Config α) (n pos : Nat) (rng : Generator) :
    ∀ c ∈ buildCells config n pos rng, c.Placed := by
  induction n generalizing pos rng with
  | zero =>
    intro c hc
    cases hc
  | succ n ih =>
    intro c hc
    cases hc with
    | head =>
      intro d
      match d with
      | 0 | 1 | 2 | 3 => exact ⟨rfl, rfl⟩
    | tail _ hc => exact ih _ _ c hc

/-- A new dish has a new world, and its cells are listed by place. -/
theorem of_new_eq_ok (h : Dish.new config = .ok d) : World.new config = .ok d.world ∧ d.Laid := by
  obtain ⟨w, hw, h⟩ := bind_eq_ok h
  cases h
  refine ⟨hw, ?_, buildCells_placed _ _ _ _⟩
  rw [buildCells_positions, List.range_eq_range']

omit [Scalar α] in
theorem Laid.of_getElem? (hd : d.Laid) {pos : Nat} (h : d.cells[pos]? = some c) :
    c.Placed ∧ c.pos = pos ∧ pos < d.world.size := by
  have hc := List.mem_of_getElem? h
  have hpos : (List.range d.world.size)[pos]? = some c.pos := by
    rw [← hd.positions, List.getElem?_map, h]
    rfl
  obtain ⟨hlt, he⟩ := List.getElem?_eq_some_iff.1 hpos
  rw [List.length_range] at hlt
  rw [List.getElem_range] at he
  exact ⟨hd.placed c hc, he.symm, hlt⟩

omit [Scalar α] in
theorem Laid.set (hd : d.Laid) {pos : Nat} (h : d.cells[pos]? = some c) (hpos : c'.pos = c.pos)
    (hc' : c'.Placed) (hsize : w.size = d.world.size) :
    (⟨w, d.cells.set pos c', d.tick⟩ : Dish α).Laid := by
  constructor
  · change (d.cells.set pos c').map (·.pos) = List.range w.size
    rw [List.map_set, hpos, hsize, ← hd.positions]
    apply List.ext_getElem?
    intro i
    rw [List.getElem?_set]
    by_cases hi : pos = i
    · subst hi
      obtain ⟨hlt, -⟩ := List.getElem?_eq_some_iff.1 h
      rw [if_pos rfl, List.length_map, if_pos hlt, List.getElem?_map, h]
      rfl
    · rw [if_neg hi]
  · intro e he
    rcases List.mem_or_eq_of_mem_set he with he | rfl
    · exact hd.placed e he
    · exact hc'

/-- Seeding is made of deeds as well, one of which brings the resource. -/
theorem of_seed_eq_ok {pos : Nat} {program : Program FrameOp} {resource : α} (hd : d.Laid)
    (h : d.seed pos program resource = .ok d') :
    (∃ deeds ids, d.world.History deeds ids d'.world ∧
      deeds.flatMap (·.growth) = [resource]) ∧ d'.Laid := by
  unfold seed at h
  split at h
  · cases h
  · next cell hcell =>
    cases h
    obtain ⟨hplaced, hpos, hlt⟩ := hd.of_getElem? hcell
    have hfound : (Deed.found pos d.tick).perform d.world = .ok (d.world.found pos d.tick) :=
      if_pos hlt
    have hsize : (d.world.found pos d.tick).size = d.world.size := World.size_modify _ _ _
    have hgrow : (Deed.grow pos resource).perform (d.world.found pos d.tick) =
        .ok ((d.world.found pos d.tick).modifyStockpile pos (·.grow resource)) :=
      if_pos (hsize.symm ▸ hlt)
    have hw := (World.History.start.act _ hfound).act _ hgrow
    have hload := Cell.load_does hplaced (hw.ground.2.2.symm ▸ hpos.symm ▸ hlt) program
    obtain ⟨more, news, hmore, hg⟩ := hload.becomes
    refine ⟨⟨_, _, hw.trans hmore, ?_⟩, hd.set hcell hload.pos hload.placed ?_⟩
    · rw [List.flatMap_append, hg]
      rfl
    · exact hload.becomes.size.trans hw.ground.2.2

theorem mapError_eq_ok {ε δ β : Type} {x : Except ε β} {f : ε → δ} {b : β}
    (h : x.mapError f = .ok b) : x = .ok b := by
  cases x with
  | error e => cases h
  | ok a => rw [Except.ok.inj h]

/-- A step is made of deeds that bring no growth, and its summary counts what there is afterwards. -/
theorem of_step_eq_ok {summary : Summary α} (hd : d.Laid) (h : d.step = .ok (summary, d')) :
    d.world.Becomes d'.world ∧ d'.Laid ∧ summary.resource = d'.world.totalResource ∧
      summary.pending = d'.world.pendingEndowment := by
  obtain ⟨⟨intake, cells₁, w₁⟩, h₁, h⟩ := bind_eq_ok h
  obtain ⟨⟨cells₂, w₂⟩, h₂, h⟩ := bind_eq_ok h
  cases h
  have d₁ := intakePhase_do (fun c hc => ⟨hd.placed c hc, hd.lt hc⟩) (mapError_eq_ok h₁)
  have l₁ := d₁.laid hd d.tick
  have d₂ := actPhase_do (fun c hc => ⟨l₁.placed c hc, l₁.lt hc⟩) (mapError_eq_ok h₂)
  have l₂ := Do.laid l₁ d₂ d.tick
  have d₃ := deathPhase_do fun c hc => ⟨l₂.placed c hc, l₂.lt hc⟩
  exact ⟨(d₁.becomes.trans d₂.becomes).trans d₃.becomes, Do.laid l₂ d₃ _, rfl, rfl⟩

def Traced (config : Config α) (d : Dish α) : Prop :=
  d.Laid ∧ ∃ w₀ deeds ids, World.new config = .ok w₀ ∧ World.History w₀ deeds ids d.world

theorem traced_new (h : Dish.new config = .ok d) : d.Traced config := by
  obtain ⟨hw, hl⟩ := of_new_eq_ok h
  exact ⟨hl, _, [], [], hw, .start⟩

/-- More deeds prolong the history. -/
theorem Traced.trans (h : d.Traced config) (hl : d'.Laid)
    (hw : ∃ deeds ids, World.History d.world deeds ids d'.world) : d'.Traced config := by
  obtain ⟨-, w₀, deeds, ids, h₀, hhistory⟩ := h
  obtain ⟨more, news, hmore⟩ := hw
  exact ⟨hl, w₀, _, _, h₀, hhistory.trans hmore⟩

/-- Deeds without growth continue the history of a dish. -/
theorem Traced.becomes (h : d.Traced config) (hl : d'.Laid) (hw : d.world.Becomes d'.world) :
    d'.Traced config := by
  obtain ⟨deeds, ids, hmore, -⟩ := hw
  exact h.trans hl ⟨deeds, ids, hmore⟩

theorem Traced.seed {pos : Nat} {program : Program FrameOp} {resource : α} (h : d.Traced config)
    (hs : d.seed pos program resource = .ok d') : d'.Traced config := by
  obtain ⟨⟨deeds, ids, hmore, -⟩, hl⟩ := of_seed_eq_ok h.1 hs
  exact h.trans hl ⟨deeds, ids, hmore⟩

/-- A step brings no growth. -/
theorem Traced.step {summary : Summary α} (h : d.Traced config) (hs : d.step = .ok (summary, d')) :
    d'.Traced config := by
  obtain ⟨hb, hl, -⟩ := of_step_eq_ok h.1 hs
  exact h.becomes hl hb

/-- Every dish that can be reached is traced. -/
theorem Reachable.history (h : Reachable config d) : d.Traced config := by
  induction h with
  | new h => exact traced_new h
  | seed _ hs ih => exact ih.seed hs
  | step _ hs ih => exact ih.step hs

end Dish

end Vivarium
