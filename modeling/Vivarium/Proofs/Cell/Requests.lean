import Vivarium.Cell
import Vivarium.Proofs.Frame.Twins
/-!
# Requests to a cell

Whoever owns a cell can load programs into it, let it act, change its membranes, and ask what it holds.
Handles apart, a list of such requests shows all of a cell that can be known, and cells whose frames
differ in handles only answer alike.
-/
namespace Vivarium

variable {α V W : Type}

/-- A registry without its handles: tags, values and regulators in order, and the threshold. -/
def Registry.contents (r : Registry α V) : List (Tag × V × Regulator α) × α :=
  (r.entries.map fun e => (e.tag, e.value, e.regulator), r.threshold)

theorem Registry.contents_shift (k : Nat) (r : Registry α V) : (r.shift k).contents = r.contents := by
  simp only [contents, shift, List.map_map]
  rfl

/-- All that a frame holds, but for handles. -/
structure Frame.Dump (α : Type) where
  pos : Nat
  facing : Direction
  msgDir : Direction
  program : Program FrameOp
  threads : List (Thread α)
  pending : List (Thread α)
  events : List (Event α)
  shared : Memory α
  rng : Generator
  limits : Limits α
  dispatch : List (Tag × Nat × Regulator α) × α
  membrane : List (Tag × UInt32 × Regulator α) × α

inductive Answer (α W : Type) where
  | done
  | fired (tags : List Tag)
  | stepped (error : Option FrameError)
  | imprinted (target : Registry α W)
  | dumped (dump : Frame.Dump α)
  | multiplicity (found : Option UInt32)
  | matched (multiplicities : List UInt32)
  | admitted (admits : Bool)

inductive Frame.Request (α W : Type) where
  | setProgram (program : Program FrameOp)
  | reset
  | advanceEnvironment (tick : Tick)
  | queueMessages
  | stepOnce
  | register (tag : Tag) (multiplicity : UInt32)
  | decayMembrane
  | clearMembrane
  | imprint (target : Registry α W)
  | dump
  | multiplicity (tag : Tag)
  | matchRanked (tag : Tag) (n : Nat)
  | admits (tag : Tag)

/-- What may be asked of a cell, and what may happen to its world in between. -/
inductive Cell.Request (α W : Type) where
  | load (program : Program FrameOp)
  | reset
  | advanceEnvironment (tick : Tick)
  | queueMessages
  | stepOnce
  | frame (d : Direction) (r : Frame.Request α W)
  | meanwhile (change : World α → World α)

variable [Scalar α]

namespace Frame

omit [Scalar α] in
def dump (f : Frame α) : Dump α where
  pos := f.pos
  facing := f.facing
  msgDir := f.msgDir
  program := f.cpu.program
  threads := f.cpu.threads
  pending := f.cpu.board.pending
  events := f.cpu.events
  shared := f.cpu.board.shared
  rng := f.cpu.board.rng
  limits := f.cpu.limits
  dispatch := f.cpu.board.matcher.contents
  membrane := f.membrane.registry.contents

def respond (f : Frame α) (w : World α) : Request α W → Answer α W × Frame α × World α
  | .setProgram program => (.done, f.setProgram program, w)
  | .reset => (.done, f.reset w)
  | .advanceEnvironment tick =>
    let (tags, f, w) := f.advanceEnvironment w tick
    (.fired tags, f, w)
  | .queueMessages => (.done, f.queueMessages w)
  | .stepOnce =>
    match f.stepOnce w with
    | .ok (f, w) => (.stepped none, f, w)
    | .error e => (.stepped (some e), f, w)
  | .register tag multiplicity =>
    (.done, { f with membrane := f.membrane.register tag multiplicity }, w)
  | .decayMembrane => (.done, { f with membrane := f.membrane.decay }, w)
  | .clearMembrane => (.done, { f with membrane := f.membrane.clear }, w)
  | .imprint target => (.imprinted (f.cpu.board.matcher.imprint target), f, w)
  | .dump => (.dumped f.dump, f, w)
  | .multiplicity tag => (.multiplicity (f.membrane.multiplicity? tag), f, w)
  | .matchRanked tag n => (.matched (f.membrane.matchRanked tag n), f, w)
  | .admits tag => (.admitted (f.membrane.admits tag), f, w)

end Frame

namespace Cell

def respond (c : Cell α) (w : World α) : Request α W → Answer α W × Cell α × World α
  | .load program => (.done, c.load program w)
  | .reset => (.done, c.reset w)
  | .advanceEnvironment tick =>
    let (tags, c, w) := c.advanceEnvironment tick w
    (.fired tags, c, w)
  | .queueMessages => (.done, c.queueMessages w)
  | .stepOnce =>
    let (error, c, w) := c.stepOnce w
    (.stepped error, c, w)
  | .frame d r =>
    let (answer, f, w) := (c.frame d).respond w r
    (answer, c.setFrame d f, w)
  | .meanwhile change => (.done, c, change w)

/-- Requests one after the other; the first component lists the answers. -/
def converse : List (Request α W) → Cell α → World α → List (Answer α W) × Cell α × World α
  | [], c, w => ([], c, w)
  | r :: rest, c, w =>
    let (answer, c, w) := c.respond w r
    let (answers, c, w) := converse rest c w
    (answer :: answers, c, w)

end Cell

/-! ## Frames that differ in handles -/

/-- The frames differ in handles only. -/
def Frame.Alike (f g : Frame α) : Prop := ∃ k l, f.Twin k (Membrane.Renamed l) g

namespace Frame.Alike

variable {f g : Frame α}

omit [Scalar α] in
theorem dump (h : f.Alike g) : g.dump = f.dump := by
  obtain ⟨k, l, h⟩ := h
  simp only [Frame.dump, h.pos, h.facing, h.msgDir, h.cpu, h.membrane.registry, Machine.shift,
    Board.shift, Registry.contents_shift]

theorem setProgram (h : f.Alike g) (program : Program FrameOp) :
    (f.setProgram program).Alike (g.setProgram program) := by
  obtain ⟨k, l, h⟩ := h
  exact ⟨k, l, h.setProgram program⟩

theorem reset (h : f.Alike g) (w : World α) :
    (f.reset w).1.Alike (g.reset w).1 ∧ (g.reset w).2 = (f.reset w).2 := by
  obtain ⟨k, l, h⟩ := h
  simp only [Frame.reset, h.pos, h.facing]
  refine ⟨⟨k, l, h.pos, h.facing, h.facing, ?_, h.membrane.clear⟩, trivial⟩
  rw [Frame.blank, h.cpu]
  rfl

theorem advanceEnvironment (h : f.Alike g) (w : World α) (tick : Tick) :
    (g.advanceEnvironment w tick).1 = (f.advanceEnvironment w tick).1 ∧
    (f.advanceEnvironment w tick).2.1.Alike (g.advanceEnvironment w tick).2.1 ∧
    (g.advanceEnvironment w tick).2.2 = (f.advanceEnvironment w tick).2.2 := by
  obtain ⟨k, l, h⟩ := h
  obtain ⟨htags, hframes, -, hworld⟩ :=
    h.advanceEnvironment (Membrane.twinning_renamed l) (World.unnoticed_id f.pos) trivial (w := w) tick
  exact ⟨htags, ⟨k, l, hframes⟩, hworld⟩

theorem queueMessages (h : f.Alike g) (w : World α) :
    (f.queueMessages w).1.Alike (g.queueMessages w).1 ∧
      (g.queueMessages w).2 = (f.queueMessages w).2 := by
  obtain ⟨k, l, h⟩ := h
  obtain ⟨hframes, -, hworld⟩ :=
    h.queueMessages (Membrane.twinning_renamed l) (World.unnoticed_id f.pos) trivial (w := w)
  exact ⟨⟨k, l, hframes⟩, hworld⟩

theorem execute (h : f.Alike g) (w : World α) :
    (f.execute w).1.Alike (g.execute w).1 ∧ (g.execute w).2 = (f.execute w).2 := by
  obtain ⟨k, l, h⟩ := h
  obtain ⟨hframes, -, hworld⟩ :=
    h.execute (Membrane.twinning_renamed l) (World.unnoticed_id f.pos) trivial (w := w)
  exact ⟨⟨k, l, hframes⟩, hworld⟩

omit [Scalar α] in
theorem imprint (h : f.Alike g) (target : Registry α W) :
    g.cpu.board.matcher.imprint target = f.cpu.board.matcher.imprint target := by
  obtain ⟨k, l, h⟩ := h
  rw [h.cpu]
  exact f.cpu.board.matcher.imprint_shift k target

omit [Scalar α] in
theorem place (h : f.Alike g) :
    g.pos = f.pos ∧ g.facing = f.facing ∧ g.hasProgram = f.hasProgram := by
  obtain ⟨k, l, h⟩ := h
  exact ⟨h.pos, h.facing, h.hasProgram⟩

/-- Frames that differ in handles give the same answer, do the same, and go on to differ in handles. -/
theorem respond (h : f.Alike g) (w : World α) (r : Request α W) :
    (g.respond w r).1 = (f.respond w r).1 ∧ (f.respond w r).2.1.Alike (g.respond w r).2.1 ∧
      (g.respond w r).2.2 = (f.respond w r).2.2 := by
  obtain ⟨hpos, hfacing, hprogram⟩ := h.place
  have hmembrane : ∃ l, f.membrane.Renamed l g.membrane ∧ ∀ m n : Membrane α, m.Renamed l n →
      ({ f with membrane := m } : Frame α).Alike { g with membrane := n } := by
    obtain ⟨k, l, h⟩ := h
    exact ⟨l, h.membrane, fun m n hmn => ⟨k, l, h.pos, h.facing, h.msgDir, h.cpu, hmn⟩⟩
  obtain ⟨l, hm, around⟩ := hmembrane
  cases r with
  | setProgram program => exact ⟨rfl, h.setProgram program, rfl⟩
  | reset => exact ⟨rfl, h.reset w⟩
  | advanceEnvironment tick =>
    obtain ⟨htags, hframes, hworld⟩ := h.advanceEnvironment w tick
    exact ⟨congrArg Answer.fired htags, hframes, hworld⟩
  | queueMessages => exact ⟨rfl, h.queueMessages w⟩
  | stepOnce =>
    simp only [Frame.respond, Frame.stepOnce, hprogram]
    by_cases hp : f.hasProgram = true
    · simp only [hp, if_true]
      exact ⟨trivial, h.execute w⟩
    · simp only [hp, Bool.false_eq_true, if_false, hpos, hfacing]
      exact ⟨trivial, h, trivial⟩
  | register tag multiplicity => exact ⟨rfl, around _ _ (hm.register tag multiplicity), rfl⟩
  | decayMembrane => exact ⟨rfl, around _ _ hm.decay, rfl⟩
  | clearMembrane => exact ⟨rfl, around _ _ hm.clear, rfl⟩
  | imprint target => exact ⟨congrArg Answer.imprinted (h.imprint target), h, rfl⟩
  | dump => exact ⟨congrArg Answer.dumped h.dump, h, rfl⟩
  | multiplicity tag => exact ⟨congrArg Answer.multiplicity (hm.multiplicity? tag), h, rfl⟩
  | matchRanked tag n => exact ⟨congrArg Answer.matched (hm.matchRanked tag n), h, rfl⟩
  | admits tag => exact ⟨congrArg Answer.admitted (hm.admits tag), h, rfl⟩

end Frame.Alike

/-! ## Cells that differ in handles -/

/-- Visits that cannot tell two rows of values apart. -/
theorem PerFacing.walk_twins {β σ : Type} {R : β → β → Prop} {f : β → σ → β × σ}
    (hf : ∀ x y s, R x y → R (f x s).1 (f y s).1 ∧ (f y s).2 = (f x s).2) {p q : PerFacing β}
    (h : ∀ d, R (p.get d) (q.get d)) (s : σ) :
    (∀ d, R ((p.walk f s).1.get d) ((q.walk f s).1.get d)) ∧ (q.walk f s).2 = (p.walk f s).2 := by
  obtain ⟨h₀, e₀⟩ := hf p.up q.up s (h 0)
  obtain ⟨h₁, e₁⟩ := hf p.right q.right (f p.up s).2 (h 1)
  obtain ⟨h₂, e₂⟩ := hf p.down q.down (f p.right (f p.up s).2).2 (h 2)
  obtain ⟨h₃, e₃⟩ := hf p.left q.left (f p.down (f p.right (f p.up s).2).2).2 (h 3)
  simp only [walk, e₀, e₁, e₂]
  refine ⟨fun d => ?_, e₃⟩
  match d with
  | 0 => exact h₀
  | 1 => exact h₁
  | 2 => exact h₂
  | 3 => exact h₃

structure Cell.Alike (c e : Cell α) : Prop where
  pos : e.pos = c.pos
  frames : ∀ d, (c.frames.get d).Alike (e.frames.get d)

namespace Cell.Alike

variable {c e : Cell α}

omit [Scalar α] in
theorem setFrame (h : c.Alike e) (d : Direction) {f g : Frame α} (hfg : f.Alike g) :
    (c.setFrame d f).Alike (e.setFrame d g) := by
  refine ⟨h.pos, fun b => ?_⟩
  by_cases hb : b = d
  · rw [hb, Cell.setFrame, Cell.setFrame, PerFacing.set, PerFacing.set, PerFacing.get_modify_same,
      PerFacing.get_modify_same]
    exact hfg
  · rw [Cell.setFrame, Cell.setFrame, PerFacing.set, PerFacing.set,
      PerFacing.get_modify_other _ _ hb, PerFacing.get_modify_other _ _ hb]
    exact h.frames b

omit [Scalar α] in
/-- Whatever keeps frames alike keeps cells alike when it is done to all frames in turn. -/
theorem sweep (h : c.Alike e) {act : Frame α → World α → Frame α × World α}
    (hact : ∀ f g w, f.Alike g → (act f w).1.Alike (act g w).1 ∧ (act g w).2 = (act f w).2)
    (w : World α) :
    (c.sweep act w).1.Alike (e.sweep act w).1 ∧ (e.sweep act w).2 = (c.sweep act w).2 := by
  obtain ⟨hframes, hworld⟩ := PerFacing.walk_twins hact h.frames w
  exact ⟨⟨h.pos, hframes⟩, hworld⟩

theorem load (h : c.Alike e) (program : Program FrameOp) (w : World α) :
    (c.load program w).1.Alike (e.load program w).1 ∧
      (e.load program w).2 = (c.load program w).2 := by
  refine h.sweep (fun f g w hfg => ?_) w
  obtain ⟨hreset, hworld⟩ := hfg.reset w
  exact ⟨hreset.setProgram program, hworld⟩

theorem advanceEnvironment (h : c.Alike e) (tick : Tick) (w : World α) :
    (e.advanceEnvironment tick w).1 = (c.advanceEnvironment tick w).1 ∧
    (c.advanceEnvironment tick w).2.1.Alike (e.advanceEnvironment tick w).2.1 ∧
    (e.advanceEnvironment tick w).2.2 = (c.advanceEnvironment tick w).2.2 := by
  obtain ⟨hframes, hstate⟩ := PerFacing.walk_twins
    (f := fun (f : Frame α) (s : List Tag × World α) =>
      ((f.advanceEnvironment s.2 tick).2.1,
        s.1 ++ (f.advanceEnvironment s.2 tick).1, (f.advanceEnvironment s.2 tick).2.2))
    (fun f g s hfg => by
      obtain ⟨htags, hframes, hworld⟩ := hfg.advanceEnvironment s.2 tick
      exact ⟨hframes, by rw [htags, hworld]⟩)
    h.frames ([], w)
  obtain ⟨htags, hworld⟩ := Prod.ext_iff.1 hstate
  exact ⟨htags, ⟨h.pos, hframes⟩, hworld⟩

/-- The frames step alike up to the first that refuses. -/
theorem stepFrames (ds : List Direction) (h : c.Alike e) (w : World α) :
    (Cell.stepFrames ds e w).1 = (Cell.stepFrames ds c w).1 ∧
    (Cell.stepFrames ds c w).2.1.Alike (Cell.stepFrames ds e w).2.1 ∧
    (Cell.stepFrames ds e w).2.2 = (Cell.stepFrames ds c w).2.2 := by
  induction ds generalizing c e w with
  | nil => exact ⟨rfl, h, rfl⟩
  | cons d rest ih =>
    have hfg : (c.frame d).Alike (e.frame d) := h.frames d
    obtain ⟨hpos, hfacing, hprogram⟩ := hfg.place
    obtain ⟨hframes, hworld⟩ := hfg.execute w
    simp only [Cell.stepFrames, Frame.stepOnce, hprogram]
    by_cases hp : (c.frame d).hasProgram = true
    · simp only [hp, if_true]
      rw [hworld]
      exact ih (h.setFrame d hframes) _
    · simp only [hp, Bool.false_eq_true, if_false, hpos, hfacing]
      exact ⟨trivial, h, trivial⟩

/-- One request has the same answer from both, and leaves them alike. -/
theorem respond (h : c.Alike e) (w : World α) (r : Request α W) :
    (e.respond w r).1 = (c.respond w r).1 ∧ (c.respond w r).2.1.Alike (e.respond w r).2.1 ∧
      (e.respond w r).2.2 = (c.respond w r).2.2 := by
  cases r with
  | load program => exact ⟨rfl, h.load program w⟩
  | reset => exact ⟨rfl, h.sweep (fun f g w hfg => hfg.reset w) w⟩
  | advanceEnvironment tick =>
    obtain ⟨htags, hcells, hworld⟩ := h.advanceEnvironment tick w
    exact ⟨congrArg Answer.fired htags, hcells, hworld⟩
  | queueMessages => exact ⟨rfl, h.sweep (fun f g w hfg => hfg.queueMessages w) w⟩
  | stepOnce =>
    obtain ⟨herror, hcells, hworld⟩ := h.stepFrames Direction.all w
    exact ⟨congrArg Answer.stepped herror, hcells, hworld⟩
  | frame d r =>
    obtain ⟨hanswer, hframes, hworld⟩ := Frame.Alike.respond (h.frames d) w r
    exact ⟨hanswer, h.setFrame d hframes, hworld⟩
  | meanwhile change => exact ⟨rfl, h, rfl⟩

/-- No list of requests tells the cells apart. -/
theorem converse (rs : List (Request α W)) (h : c.Alike e) (w : World α) :
    (Cell.converse rs e w).1 = (Cell.converse rs c w).1 ∧
      (Cell.converse rs e w).2.2 = (Cell.converse rs c w).2.2 := by
  induction rs generalizing c e w with
  | nil => exact ⟨rfl, rfl⟩
  | cons r rest ih =>
    obtain ⟨hanswer, hcells, hworld⟩ := h.respond w r
    obtain ⟨hanswers, hend⟩ := ih hcells (c.respond w r).2.2
    simp only [Cell.converse, hanswer, hworld, hanswers, hend]
    exact ⟨trivial, trivial⟩

end Cell.Alike

end Vivarium
