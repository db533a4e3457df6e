import Vivarium.Frame.Environment
import Vivarium.World.Settlement
import Vivarium.Proofs.Lineage.Inheritance
import Vivarium.Proofs.World.Effects
/-!
# Histories of a world

A history is a finite sequence of deeds, in any order and at any places on the grid. A deed is
carried out by the functions of the world and of its frames, and comes down to steps of eight kinds.
So what survives each kind of step holds throughout every history.
-/
namespace Vivarium

variable {α : Type} [Scalar α]

/-- What can be done to a world. Frames come with whatever program and threads they have. -/
inductive Deed (α : Type) where
  | found (pos : Nat) (tick : Tick)
  | settle (pos : Nat) (tick : Tick)
  | refund (pos : Nat)
  | reproduce (pos : Nat) (facing : Direction) (relative : α) (level : Nat)
      (program : Program FrameOp)
  | mark (pos : Nat) (mark : Apoptosis)
  | die (pos : Nat)
  | vacate (pos : Nat)
  | environment (frame : Frame α) (tick : Tick)
  | messages (frame : Frame α)
  | execute (frame : Frame α)
  | reset (frame : Frame α)
  | age (pos : Nat) (ticks : UInt64)
  | ageAt (pos : Nat) (level : Nat) (delta : α)
  | grow (pos : Nat) (amount : α)

namespace Deed

def pos : Deed α → Nat
  | found pos _ | settle pos _ | refund pos | reproduce pos _ _ _ _ | mark pos _ | die pos
  | vacate pos | age pos _ | ageAt pos _ _ | grow pos _ => pos
  | environment f _ | messages f | execute f | reset f => f.pos

/-- A frame without a program changes nothing. -/
def act : Deed α → World α → Except Fault (World α)
  | found pos tick, w => .ok (w.found pos tick)
  | settle pos tick, w => (w.settleSire pos tick).map (·.2)
  | refund pos, w => (w.refundIntake pos).map (·.2)
  | reproduce pos facing relative level program, w =>
    .ok (w.tryReproduce pos facing relative level program).2
  | mark pos m, w => .ok (w.setMark pos m)
  | die pos, w => .ok (w.applyApoptosis pos).2
  | vacate pos, w => .ok (w.vacate pos)
  | environment f tick, w => .ok (f.advanceEnvironment w tick).2.2
  | messages f, w => .ok (f.queueMessages w).2
  | execute f, w => .ok (match f.stepOnce w with | .ok (_, w) => w | .error _ => w)
  | reset f, w => .ok (f.reset w).2
  | age pos ticks, w => .ok (w.modifyChannel pos (·.advanceAges ticks))
  | ageAt pos level delta, w => .ok (w.modifyChannel pos (·.incrementAge level delta))
  | grow pos amount, w => .ok (w.modifyStockpile pos (·.grow amount))

/-- A place outside the grid is a fault. -/
def perform (d : Deed α) (w : World α) : Except Fault (World α) :=
  if d.pos < w.size then d.act w else .error (.noTile d.pos)

/-- A deed that succeeds is done on the grid. -/
theorem of_perform_eq_ok {d : Deed α} {w w' : World α} (h : d.perform w = .ok w') :
    d.pos < w.size ∧ d.act w = .ok w' := by
  unfold perform at h
  split at h
  · next hpos => exact ⟨hpos, h⟩
  · cases h

def draws : Deed α → World α → Nat
  | found _ _, w => w.config.levels.length
  | settle pos _, w =>
    match (w.tile pos).intake with
    | [] => 0
    | sire :: _ => sire.record.renewals w.config.levels.length
  | _, _ => 0

def drawn (d : Deed α) (w : World α) : List ChannelId := (w.rng.draw (d.draws w)).1

/-- Resource that comes from outside. -/
def growth : Deed α → List α
  | grow _ amount => [amount]
  | _ => []

end Deed

namespace World

/-- The world that `w₀` has become by some deeds, and the identifiers drawn on the way. -/
inductive History (w₀ : World α) : List (Deed α) → List ChannelId → World α → Prop where
  | start : History w₀ [] [] w₀
  | act {deeds ids w w'} (d : Deed α) : History w₀ deeds ids w → d.perform w = .ok w' →
      History w₀ (deeds ++ [d]) (ids ++ d.drawn w) w'

/-- Carry out deeds in turn. The identifiers drawn come with the world. -/
def run : List (Deed α) → World α → Except Fault (List ChannelId × World α)
  | [], w => .ok ([], w)
  | d :: rest, w => do
    let v ← d.perform w
    let (ids, v) ← run rest v
    pure (d.drawn w ++ ids, v)

end World

/-- The tiles differ in nothing that concerns resource or lineage. -/
structure Tile.Resembles (t u : Tile α) : Prop where
  resource : u.stockpile.resource = t.stockpile.resource
  ids : u.channel.ids = t.channel.ids
  prevChan : u.family.prevChan = t.family.prevChan
  intake : u.intake = t.intake

omit [Scalar α] in
theorem Stockpile.resource_resetHarvests (s : Stockpile α) (nlev : Nat) :
    (s.resetHarvests nlev).resource = s.resource := by
  unfold Stockpile.resetHarvests
  induction List.range nlev generalizing s with
  | nil => rfl
  | cons level rest ih => exact ih (s.resetHarvest level)

theorem Channel.ids_advanceAges (c : Channel) (ticks : UInt64) :
    (c.advanceAges ticks).ids = c.ids := by
  cases h : c.ids with
  | none => simp only [Channel.advanceAges, h]
  | some ids => simp only [Channel.advanceAges, h]

theorem map_eq_ok {ε β γ : Type} {x : Except ε β} {f : β → γ} {c : γ}
    (h : x.map f = .ok c) : ∃ b, x = .ok b ∧ f b = c := by
  cases x with
  | error e => cases h
  | ok b => exact ⟨b, rfl, Except.ok.inj h⟩

/-- If two things done in turn succeed, both do. -/
theorem bind_eq_ok {ε β γ : Type} {x : Except ε β} {f : β → Except ε γ} {c : γ}
    (h : x >>= f = .ok c) : ∃ b, x = .ok b ∧ f b = .ok c := by
  cases x with
  | error e => cases h
  | ok b => exact ⟨b, rfl, h⟩

/-- Whether a result is there and passes a test. -/
def yields {ε β : Type} (x : Except ε β) (test : β → Bool) : Bool :=
  match x with
  | .ok b => test b
  | .error _ => false

theorem of_yields {ε β : Type} {x : Except ε β} {test : β → Bool} (h : yields x test = true) :
    ∃ b, x = .ok b ∧ test b = true := by
  cases x with
  | error e => cases h
  | ok b => exact ⟨b, rfl, h⟩

namespace World

/-! ## What stays -/

section

variable {w v w' : World α}

structure Stays (w v : World α) : Prop where
  config : v.config = w.config
  grid : v.grid = w.grid
  size : v.size = w.size
  rng : v.rng = w.rng

omit [Scalar α] in
theorem Stays.refl (w : World α) : w.Stays w := ⟨rfl, rfl, rfl, rfl⟩

omit [Scalar α] in
theorem Stays.trans (h : w.Stays v) (h' : v.Stays w') : w.Stays w' :=
  ⟨h'.config.trans h.config, h'.grid.trans h.grid, h'.size.trans h.size, h'.rng.trans h.rng⟩

omit [Scalar α] in
theorem stays_modify (w : World α) (pos : Nat) (change : Tile α → Tile α) :
    w.Stays (w.modify pos change) := ⟨rfl, rfl, size_modify _ _ _, rfl⟩

theorem stays_sendResource (w : World α) (pos : Nat) (dir : Direction) (fraction : α) :
    w.Stays (w.sendResource pos dir fraction) := by
  by_cases hl : (w.tile (w.neighbor pos dir)).live
  · simp only [sendResource, hl, if_true]
    exact (stays_modify _ _ _).trans (stays_modify _ _ _)
  · simp only [sendResource, hl]
    exact .refl w

theorem stays_tryReproduce (w : World α) (pos : Nat) (facing : Direction) (relative : α)
    (level : Nat) (program : Program FrameOp) :
    w.Stays (w.tryReproduce pos facing relative level program).2 := by
  unfold tryReproduce
  cases w.reproductionLevel? pos facing level with
  | none => exact .refl w
  | some used => exact (stays_modify _ _ _).trans (stays_modify _ _ _)

end

/-! ## Steps -/

/-- One step, with the identifiers it draws and the growth it brings. -/
inductive Step (w : World α) : List ChannelId → List α → World α → Prop where
  | quiet (pos : Nat) (change : Tile α → Tile α) : (∀ t : Tile α, t.Resembles (change t)) →
      Step w [] [] (w.modify pos change)
  | forget {pos : Nat} : pos < w.size → Step w [] [] (w.vacate pos)
  | send {pos : Nat} (dir : Direction) (fraction : α) : pos < w.size →
      Step w [] [] (w.sendResource pos dir fraction)
  | reproduce {pos : Nat} (facing : Direction) (relative : α) (level : Nat)
      (program : Program FrameOp) : pos < w.size →
      Step w [] [] (w.tryReproduce pos facing relative level program).2
  | refund {pos n w'} : pos < w.size → w.refundIntake pos = .ok (n, w') → Step w [] [] w'
  | found {pos : Nat} (tick : Tick) : pos < w.size →
      Step w (w.rng.draw w.config.levels.length).1 [] (w.found pos tick)
  | settle {pos tick sire losers program w'} : pos < w.size →
      (w.tile pos).intake = sire :: losers → w.settleSire pos tick = .ok (program, w') →
      Step w (w.rng.draw (sire.record.renewals w.config.levels.length)).1 [] w'
  | grow {pos : Nat} (amount : α) : pos < w.size →
      Step w [] [amount] (w.modifyStockpile pos (·.grow amount))

/-- A property of the identifiers drawn so far, the growth so far and the world, that steps keep. -/
def Kept (I : List ChannelId → List α → World α → Prop) : Prop :=
  ∀ ids gains w news more w', I ids gains w → w.Step news more w' →
    I (ids ++ news) (gains ++ more) w'

variable {I : List ChannelId → List α → World α → Prop} {ids : List ChannelId} {gains : List α}
  {w w' : World α}

/-- A step that draws nothing and brings nothing. -/
theorem Kept.silent (hI : Kept I) (h : I ids gains w) (hs : w.Step [] [] w') : I ids gains w' := by
  have hnext := hI _ _ _ _ _ _ h hs
  rwa [List.append_nil, List.append_nil] at hnext

/-- What concerns neither resource nor lineage is not noticed. -/
theorem Kept.quiet (hI : Kept I) (h : I ids gains w) (pos : Nat) {change : Tile α → Tile α}
    (hc : ∀ t : Tile α, t.Resembles (change t)) : I ids gains (w.modify pos change) :=
  hI.silent h (.quiet pos change hc)

theorem Kept.control (hI : Kept I) (h : I ids gains w) (pos : Nat) (dir : Direction)
    (change : Controls α → Controls α) : I ids gains (w.modifyControls pos dir change) :=
  hI.quiet h pos fun _ => ⟨rfl, rfl, rfl, rfl⟩

theorem Kept.inbox (hI : Kept I) (h : I ids gains w) (pos : Nat) (dir : Direction)
    (change : List (Message α) → List (Message α)) :
    I ids gains (w.modifyInbox pos dir change) :=
  hI.quiet h pos fun _ => ⟨rfl, rfl, rfl, rfl⟩

/-- Effects of a frame on the grid are steps. -/
theorem Kept.effect (hI : Kept I) {pos : Nat} {facing : Direction} {program : Program FrameOp}
    (hpos : pos < w.size) (he : Effect pos facing program w w') (h : I ids gains w) :
    I ids gains w' ∧ w'.size = w.size := by
  cases he with
  | control dir change _ => exact ⟨hI.control h pos dir change, size_modify _ _ _⟩
  | mailInside dir m => exact ⟨hI.inbox h pos dir _, size_modify _ _ _⟩
  | mailOut dir m _ => exact ⟨hI.inbox h _ _ _, size_modify _ _ _⟩
  | send dir fraction =>
    exact ⟨hI.silent h (.send dir fraction hpos), (stays_sendResource w pos dir fraction).size⟩
  | reproduce relative level =>
    exact ⟨hI.silent h (.reproduce facing relative level program hpos),
      (stays_tryReproduce w pos facing relative level program).size⟩
  | age level delta => exact ⟨hI.quiet h pos fun _ => ⟨rfl, rfl, rfl, rfl⟩, size_modify _ _ _⟩
  | mark mark => exact ⟨hI.quiet h pos fun _ => ⟨rfl, rfl, rfl, rfl⟩, size_modify _ _ _⟩

/-- A pass keeps what steps keep. -/
theorem Kept.execute (hI : Kept I) (f : Frame α) (hpos : f.pos < w.size) (h : I ids gains w) :
    I ids gains (f.execute w).2 := by
  have hex := f.execute_induction (I := fun v => I ids gains v ∧ v.size = w.size)
    (fun v v' he hv => by
      obtain ⟨h', hs⟩ := hI.effect (hv.2.symm ▸ hpos) he hv.1
      exact ⟨h', hs.trans hv.2⟩) w ⟨h, rfl⟩
  exact hex.1

theorem Kept.environment (hI : Kept I) (f : Frame α) (tick : Tick) (h : I ids gains w) :
    I ids gains (f.advanceEnvironment w tick).2.2 := by
  unfold Frame.advanceEnvironment
  split
  · apply hI.control
    apply hI.quiet h
    intro t
    exact ⟨t.stockpile.resource_resetHarvests _, rfl, rfl, rfl⟩
  · exact h

theorem Kept.die (hI : Kept I) {pos : Nat} (hpos : pos < w.size) (h : I ids gains w) :
    I ids gains (w.applyApoptosis pos).2 := by
  unfold applyApoptosis
  cases (w.tile pos).mark with
  | unmarked => exact h
  | partialDeath => exact hI.quiet h pos fun _ => ⟨rfl, rfl, rfl, rfl⟩
  | completeDeath => exact hI.silent h (.forget hpos)

theorem settleSire_nil {pos : Nat} (hn : (w.tile pos).intake = []) (tick : Tick) :
    w.settleSire pos tick = .ok (none, w) := by
  unfold settleSire
  rw [hn]
  rfl

/-- What survives every step survives every deed. -/
theorem Kept.perform (hI : Kept I) {d : Deed α} (hd : d.perform w = .ok w')
    (h : I ids gains w) : I (ids ++ d.drawn w) (gains ++ d.growth) w' := by
  obtain ⟨hpos, hact⟩ := Deed.of_perform_eq_ok hd
  -- Most deeds draw nothing and bring nothing.
  have quiet (h' : I ids gains w') (hn : d.draws w = 0) (hg : d.growth = []) :
      I (ids ++ d.drawn w) (gains ++ d.growth) w' := by
    rw [Deed.drawn, hn, hg, Generator.draw_zero, List.append_nil, List.append_nil]
    exact h'
  cases d with
  | found pos tick =>
    obtain rfl := Except.ok.inj hact
    exact hI _ _ _ _ _ _ h (.found tick hpos)
  | settle pos tick =>
    obtain ⟨⟨program, v⟩, hs, rfl⟩ := map_eq_ok hact
    cases hin : (w.tile pos).intake with
    | nil =>
      obtain ⟨-, rfl⟩ := Prod.mk.inj (Except.ok.inj ((w.settleSire_nil hin tick).symm.trans hs))
      exact quiet h (by simp only [Deed.draws, hin]) rfl
    | cons sire losers =>
      have hn : (Deed.settle pos tick).draws w = sire.record.renewals w.config.levels.length := by
        simp only [Deed.draws, hin]
      rw [Deed.drawn, hn]
      exact hI _ _ _ _ _ _ h (.settle hpos hin hs)
  | refund pos =>
    obtain ⟨⟨n, v⟩, hr, rfl⟩ := map_eq_ok hact
    exact quiet (hI.silent h (.refund hpos hr)) rfl rfl
  | grow pos amount =>
    obtain rfl := Except.ok.inj hact
    exact hI _ _ _ _ _ _ h (.grow amount hpos)
  | reproduce pos facing relative level program =>
    obtain rfl := Except.ok.inj hact
    exact quiet (hI.silent h (.reproduce facing relative level program hpos)) rfl rfl
  | mark pos m =>
    obtain rfl := Except.ok.inj hact
    exact quiet (hI.quiet h pos fun _ => ⟨rfl, rfl, rfl, rfl⟩) rfl rfl
  | die pos =>
    obtain rfl := Except.ok.inj hact
    exact quiet (hI.die hpos h) rfl rfl
  | vacate pos =>
    obtain rfl := Except.ok.inj hact
    exact quiet (hI.silent h (.forget hpos)) rfl rfl
  | environment f tick =>
    obtain rfl := Except.ok.inj hact
    exact quiet (hI.environment f tick h) rfl rfl
  | messages f =>
    obtain rfl := Except.ok.inj hact
    exact quiet (hI.inbox h f.pos f.facing _) rfl rfl
  | execute f =>
    obtain rfl := Except.ok.inj hact
    refine quiet ?_ rfl rfl
    unfold Frame.stepOnce
    by_cases hp : f.hasProgram
    · simp only [hp, if_true]
      exact hI.execute f hpos h
    · simp only [hp]
      exact h
  | reset f =>
    obtain rfl := Except.ok.inj hact
    exact quiet (hI.inbox (hI.control h f.pos f.facing _) f.pos f.facing _) rfl rfl
  | age pos ticks =>
    obtain rfl := Except.ok.inj hact
    exact quiet (hI.quiet h pos fun t => ⟨rfl, t.channel.ids_advanceAges ticks, rfl, rfl⟩) rfl rfl
  | ageAt pos level delta =>
    obtain rfl := Except.ok.inj hact
    exact quiet (hI.quiet h pos fun _ => ⟨rfl, rfl, rfl, rfl⟩) rfl rfl

/-! ## Runs -/

/-- A run prolongs a history. -/
theorem History.of_run {w₀ v : World α} {deeds more : List (Deed α)} {news : List ChannelId}
    (hw : History w₀ deeds ids w) (hr : w.run more = .ok (news, v)) :
    History w₀ (deeds ++ more) (ids ++ news) v := by
  induction more generalizing deeds ids w news with
  | nil =>
    obtain ⟨rfl, rfl⟩ := Prod.mk.inj (Except.ok.inj hr)
    rwa [List.append_nil, List.append_nil]
  | cons d rest ih =>
    obtain ⟨u, hd, hbind⟩ := bind_eq_ok hr
    obtain ⟨⟨last, v'⟩, hrest, hp⟩ := bind_eq_ok hbind
    obtain ⟨rfl, rfl⟩ := Prod.mk.inj (Except.ok.inj hp)
    have hnext := ih (hw.act d hd) hrest
    rwa [List.append_assoc, List.append_assoc] at hnext

/-- Whether some deeds in a new world go well and lead to what a test asks for. -/
def leadsTo (config : Config α) (deeds : List (Deed α)) (test : List ChannelId → World α → Bool) :
    Bool :=
  match World.new config with
  | .ok w₀ =>
    match w₀.run deeds with
    | .ok (ids, w) => test ids w
    | .error _ => false
  | .error _ => false

/-- A run that goes well is a history. -/
theorem exists_history {config : Config α} {deeds : List (Deed α)}
    {test : List ChannelId → World α → Bool} (h : leadsTo config deeds test = true) :
    ∃ w₀ ids w, World.new config = .ok w₀ ∧ History w₀ deeds ids w ∧ test ids w = true := by
  unfold leadsTo at h
  split at h
  · next w₀ h₀ =>
    split at h
    · next ids w hr => exact ⟨w₀, ids, w, h₀, History.start.of_run hr, h⟩
    · cases h
  · cases h

/-- What survives every step holds throughout every history. -/
theorem Kept.history (hI : Kept I) {w₀ : World α} {deeds : List (Deed α)}
    (hw : History w₀ deeds ids w) (h : I [] [] w₀) : I ids (deeds.flatMap (·.growth)) w := by
  induction hw with
  | start => exact h
  | act d _ hd ih =>
    rw [List.flatMap_append, List.flatMap_singleton]
    exact hI.perform hd ih

end World

end Vivarium
