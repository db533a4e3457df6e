import Vivarium.Proofs.Frame.Docket
import Vivarium.Proofs.Frame.Triggers
import Vivarium.Proofs.Machine.Schedule
import Vivarium.Proofs.World.Authority
import Vivarium.Proofs.World.Inboxes
/-!
# From the inbox to a thread

A frame reads its inbox as a whole. What the membrane admits becomes events in the order of delivery, what
it refuses is gone, and in the next pass of the machine every event has its turn: it starts a thread if a
function answers to its tag and a core is free. The docket of an observer follows the messages through the
life of the frame; the machine knows nothing of it, but its queue is at any time what the docket says.
-/
namespace Vivarium

variable {α : Type} [Scalar α]

/-! ## The gate -/

/-- Whether the best match of a tag has an odd multiplicity; without a match it has not. -/
def Membrane.oddMatch (m : Membrane α) (tag : Tag) : Bool :=
  (m.matchRanked tag 1).any fun multiplicity => multiplicity.toNat % 2 == 1

/-- An odd best match opens the membrane. -/
theorem Membrane.admits_eq_oddMatch (m : Membrane α) (tag : Tag) : m.admits tag = m.oddMatch tag := by
  rw [admits, oddMatch, matchRanked, Registry.best?]
  cases m.registry.ranking tag with
  | nil => rfl
  | cons e rest =>
    simp only [List.head?_cons, List.take_succ_cons, List.take_zero, List.map_cons, List.map_nil,
      List.any_cons, List.any_nil, Bool.or_false]
    rw [Bool.eq_iff_iff, beq_iff_eq, beq_iff_eq, ← UInt32.toNat_inj, UInt32.toNat_mod]
    rfl

/-- The messages that a frame hands to its machine when it reads its inbox. -/
def Frame.letters (f : Frame α) (w : World α) : List (Message α) :=
  if (w.controls f.pos f.facing).inboxActive then
    (w.inbox f.pos f.facing).filter fun m => f.membrane.oddMatch m.affinity
  else []

structure Frame.Reads (f : Frame α) (w : World α) (g : Frame α) (v : World α) : Prop where
  frame : g = { f with cpu := { f.cpu with events := f.cpu.events ++ (f.letters w).map (·.event) } }
  emptied : v.inbox f.pos f.facing = []
  silent : ∀ q d, ¬(q = f.pos ∧ d = f.facing) → v.inbox q d = w.inbox q d
  others : w.SameButInboxes v

theorem Frame.reads_queueMessages (f : Frame α) (w : World α) :
    f.Reads w (f.queueMessages w).1 (f.queueMessages w).2 where
  frame := by
    simp only [queueMessages, letters, Membrane.admits_eq_oddMatch]
    rfl
  emptied := w.inbox_emptied f.pos f.facing
  silent _ _ h := World.inbox_modifyInbox_other h _
  others := w.sameButInboxes_modifyInbox f.pos f.facing _

/-! ## The life of a frame -/

namespace Frame

variable (f : Frame α) (w : World α) (tick : Tick)

theorem pos_advanceEnvironment : (f.advanceEnvironment w tick).2.1.pos = f.pos := by
  unfold advanceEnvironment
  split <;> rfl

theorem facing_advanceEnvironment : (f.advanceEnvironment w tick).2.1.facing = f.facing := by
  unfold advanceEnvironment
  split <;> rfl

/-- The triggers of the environment do not touch the queue. -/
theorem cpu_advanceEnvironment (h : f.cpu.Rested) : (f.advanceEnvironment w tick).2.1.cpu.Rested ∧
    (f.advanceEnvironment w tick).2.1.cpu.events = f.cpu.events := by
  have hdrawn : (f.drawChance w.config).2.cpu.Rested := ⟨h.pending, h.length_le⟩
  have hexcited (tags : List Tag) : ((f.drawChance w.config).2.excite tags).cpu.Rested :=
    Machine.handle_induction (fun _ affinity payload hm => hm.trigger ⟨affinity, payload⟩) _ _ hdrawn
  have hqueue (tags : List Tag) : ((f.drawChance w.config).2.excite tags).cpu.events = f.cpu.events :=
    (f.drawChance w.config).2.cpu.events_handle _
  have hfaded {g : Frame α} (hg : g.cpu.Rested) : g.fade.cpu.Rested := ⟨hg.pending, hg.length_le⟩
  by_cases htick : tick.qualifies w.config.envTrigFreq = true
  · rw [f.advanceEnvironment_of_qualifies htick]
    exact ⟨hfaded (hexcited _), hqueue _⟩
  · rw [advanceEnvironment, if_neg htick]
    exact ⟨h, rfl⟩

theorem cpu_execute (h : f.cpu.Rested) :
    (f.execute w).1.cpu.Rested ∧ (f.execute w).1.cpu.events = [] := by
  obtain ⟨turns, board, u, -, -, hprocess⟩ := h.exists_schedule (environment f.pos f.facing)
    ⟨w, f.membrane, f.msgDir⟩
  exact ⟨h.process _ _, congrArg (·.1.events) hprocess⟩

end Frame

/-- A frame in its world, and the notes of an observer. -/
structure Moment (α : Type) where
  frame : Frame α
  world : World α
  /-- The messages that have left the inbox, in the order of their delivery. -/
  past : Docket α
  /-- All events that were ever put into the queue. -/
  log : List (Event α)

namespace Moment

def inbox (m : Moment α) : List (Message α) := m.world.inbox m.frame.pos m.frame.facing

/-- All messages that were ever delivered. -/
def docket (m : Moment α) : Docket α := m.past ++ m.inbox.map fun letter => (letter, .waiting)

def idle (m : Moment α) : Machine α FrameOp := { m.frame.cpu with events := [] }

/-- The frame and the world become others. If nothing waits in the inbox any more, what did is lost. -/
def become (m : Moment α) (f : Frame α) (w : World α) : Moment α :=
  { m with
    frame := f
    world := w
    past := if (w.inbox m.frame.pos m.frame.facing).isEmpty then
        m.past ++ m.inbox.map fun letter => (letter, .swept)
      else m.past }

def read (m : Moment α) : Moment α where
  frame := (m.frame.queueMessages m.world).1
  world := (m.frame.queueMessages m.world).2
  past := m.past ++ m.inbox.map fun letter =>
    (letter, if (m.world.controls m.frame.pos m.frame.facing).inboxActive &&
      m.frame.membrane.oddMatch letter.affinity then .queued else .refused)
  log := m.log ++ (m.frame.queueMessages m.world).1.cpu.events.drop m.frame.cpu.events.length

/-- The machine passes, and makes of frame and world what it does. -/
def serve (m : Moment α) (f : Frame α) (w : World α) : Moment α :=
  { m with past := m.past.serve m.idle }.become f w

/-- What can happen to a frame and around it. Its owner calls it, loads programs, puts any membrane in the
place of the one it has, and does to the world whatever can be done; other frames act on the world by
deeds. -/
inductive Step : Moment α → Moment α → Prop where
  | deed {m : Moment α} {w : World α} (d : Deed α) : d.perform m.world = .ok w →
      Step m (m.become m.frame w)
  | edit {m : Moment α} {q : Nat} (e : Tile.Edit α) : q < m.world.size →
      Step m (m.become m.frame (m.world.modify q e.apply))
  | read (m : Moment α) : Step m m.read
  | environment (m : Moment α) (tick : Tick) :
      Step m (m.become (m.frame.advanceEnvironment m.world tick).2.1
        (m.frame.advanceEnvironment m.world tick).2.2)
  | pass {m : Moment α} {f : Frame α} {w : World α} : m.frame.stepOnce m.world = .ok (f, w) →
      Step m (m.serve f w)
  | reset (m : Moment α) :
      Step m ({ m with past := m.past.drop }.become (m.frame.reset m.world).1 (m.frame.reset m.world).2)
  | load (m : Moment α) (program : Program FrameOp) :
      Step m { m with frame := m.frame.setProgram program }
  | refit (m : Moment α) (membrane : Membrane α) : Step m { m with frame := { m.frame with membrane } }

/-- The moments that a new frame in a new world comes to. -/
inductive Life (config : Config α) : Moment α → Prop where
  | start {w : World α} {pos : Nat} (facing : Direction) (rng : Generator) : World.new config = .ok w →
      pos < w.size → Life config ⟨.build pos facing config rng, w, [], []⟩
  | step {m m' : Moment α} : Life config m → Step m m' → Life config m'

/-- The notes and the machine agree. -/
structure Agrees (m : Moment α) : Prop where
  rested : m.frame.cpu.Rested
  queue : m.past.events MailFate.isQueued = m.frame.cpu.events
  log : m.log = m.past.events MailFate.wasQueued

variable {m m' : Moment α}

/-! ### The notes -/

/-- As long as the inbox grows or is swept, the notes go forward. -/
theorem forward_become (m : Moment α) {f : Frame α} {w : World α} (hpos : f.pos = m.frame.pos)
    (hfacing : f.facing = m.frame.facing)
    (h : (m.world.tile m.frame.pos).Collects m.frame.facing (w.tile m.frame.pos)) :
    m.docket.Forward (m.become f w).docket := by
  have hinbox : (m.become f w).inbox = w.inbox m.frame.pos m.frame.facing := by
    rw [inbox, ← hpos, ← hfacing]
    rfl
  rw [docket, docket, hinbox]
  simp only [become]
  split
  · next hempty =>
    rw [List.isEmpty_iff.1 hempty, List.map_nil, List.append_nil]
    exact (Docket.Forward.refl _).append rfl (Docket.forward_waiting _ _)
  · next hfull =>
    have hmore : m.inbox <+: w.inbox m.frame.pos m.frame.facing :=
      h.resolve_right fun hnil => hfull (List.isEmpty_iff.2 hnil)
    exact Docket.forward_of_prefix ((List.prefix_append_right_inj _).2 (hmore.map _))

/-- A step takes no message out of the notes and changes no fate that is settled. -/
theorem Step.forward (h : Step m m') : m.docket.Forward m'.docket := by
  cases h with
  | deed d hd => exact m.forward_become rfl rfl (d.collects hd _ _)
  | edit e _ => exact m.forward_become rfl rfl (m.world.collects_modify _ _ (fun t => e.collects t _) _)
  | read =>
    have hempty : m.read.inbox = [] := (m.frame.reads_queueMessages m.world).emptied
    rw [docket, docket, hempty, List.map_nil, List.append_nil]
    exact (Docket.Forward.refl _).append rfl (Docket.forward_waiting _ _)
  | environment tick =>
    exact m.forward_become (m.frame.pos_advanceEnvironment _ _) (m.frame.facing_advanceEnvironment _ _)
      (World.collects_of_inbox_eq (m.frame.inbox_advanceEnvironment m.world tick _ _))
  | @pass f w hpass =>
    obtain ⟨rfl, rfl⟩ := Prod.mk.inj (Frame.of_stepOnce_ok hpass).symm
    have hserved := (m.past.forward_serve m.idle).append (m.past.length_serve m.idle)
      (.refl (m.inbox.map fun letter => (letter, .waiting)))
    refine hserved.trans (forward_become { m with past := m.past.serve m.idle } rfl rfl (.inl ?_))
    exact m.frame.prefix_inbox_execute m.world m.frame.pos m.frame.facing
  | reset =>
    have hdropped := m.past.forward_drop.append (List.length_map _)
      (.refl (m.inbox.map fun letter => (letter, .waiting)))
    refine hdropped.trans (forward_become { m with past := m.past.drop } rfl rfl (.inr ?_))
    exact World.inbox_emptied _ m.frame.pos m.frame.facing
  | load program => exact .refl _
  | refit membrane => exact .refl _

/-! ### The machine -/

theorem events_become (m : Moment α) (f : Frame α) (w : World α) {kind : MailFate → Bool}
    (h : kind .swept = false) : (m.become f w).past.events kind = m.past.events kind := by
  simp only [become]
  split
  · rw [Docket.events_append, Docket.events_map]
    simp [h]
  · rfl

theorem events_read (m : Moment α) {kind : MailFate → Bool} (hqueued : kind .queued = true)
    (hrefused : kind .refused = false) : m.read.past.events kind =
      m.past.events kind ++ (m.frame.letters m.world).map (·.event) := by
  have hkind (b : Bool) : kind (if b then .queued else .refused) = b := by
    cases b with
    | true => exact hqueued
    | false => exact hrefused
  rw [read, Docket.events_append, Docket.events_map]
  simp only [hkind, Frame.letters]
  cases (m.world.controls m.frame.pos m.frame.facing).inboxActive with
  | true => rfl
  | false => simp

theorem Agrees.read (h : m.Agrees) : m.read.Agrees := by
  have hframe : m.read.frame = _ := (m.frame.reads_queueMessages m.world).frame
  have hevents : m.read.frame.cpu.events =
      m.frame.cpu.events ++ (m.frame.letters m.world).map (·.event) := by rw [hframe]
  refine ⟨?_, ?_, ?_⟩
  · rw [hframe]
    exact ⟨h.rested.pending, h.rested.length_le⟩
  · rw [m.events_read rfl rfl, h.queue, hevents]
  · rw [m.events_read rfl rfl, ← h.log]
    change m.log ++ m.read.frame.cpu.events.drop m.frame.cpu.events.length = _
    rw [hevents, List.drop_left]

/-- Nothing that happens to a frame makes the notes wrong. -/
theorem Agrees.step (h : m.Agrees) (hs : Step m m') : m'.Agrees := by
  cases hs with
  | deed | edit =>
    exact ⟨h.rested, (m.events_become _ _ rfl).trans h.queue,
      h.log.trans (m.events_become _ _ rfl).symm⟩
  | read => exact h.read
  | environment tick =>
    obtain ⟨hrested, hevents⟩ := m.frame.cpu_advanceEnvironment m.world tick h.rested
    exact ⟨hrested, (m.events_become _ _ rfl).trans (h.queue.trans hevents.symm),
      h.log.trans (m.events_become _ _ rfl).symm⟩
  | @pass f w hpass =>
    have hexecuted := m.frame.cpu_execute m.world h.rested
    rw [Frame.of_stepOnce_ok hpass] at hexecuted
    have hserved {kind : MailFate → Bool} (hkind : kind .swept = false) :
        (m.serve f w).past.events kind = (m.past.serve m.idle).events kind :=
      events_become { m with past := m.past.serve m.idle } f w hkind
    refine ⟨hexecuted.1, ?_, ?_⟩
    · rw [hserved rfl, Docket.events_serve_isQueued]
      exact hexecuted.2.symm
    · rw [hserved rfl, Docket.events_serve_wasQueued]
      exact h.log
  | reset =>
    have hdropped {kind : MailFate → Bool} (hkind : kind .swept = false) :=
      events_become { m with past := m.past.drop } (m.frame.reset m.world).1 (m.frame.reset m.world).2 hkind
    refine ⟨⟨rfl, Nat.zero_le _⟩, ?_, ?_⟩
    · rw [hdropped rfl, Docket.events_drop_isQueued]
      rfl
    · rw [hdropped rfl, Docket.events_drop_wasQueued]
      exact h.log
  | load program => exact ⟨⟨h.rested.pending, h.rested.length_le⟩, h.queue, h.log⟩
  | refit membrane => exact ⟨h.rested, h.queue, h.log⟩

theorem Life.agrees {config : Config α} (h : Life config m) : m.Agrees := by
  induction h with
  | start facing rng _ _ => exact ⟨⟨rfl, Nat.zero_le _⟩, rfl, rfl⟩
  | step _ hs ih => exact ih.step hs

/-- The notes of a pass, but for messages that the frame did not live to read. -/
theorem past_serve (m : Moment α) (f : Frame α) (w : World α) :
    ∃ swept : List (Message α), (m.serve f w).past =
      m.past.serve m.idle ++ swept.map fun letter => (letter, .swept) := by
  rw [serve, become]
  split
  · exact ⟨m.inbox, rfl⟩
  · exact ⟨[], (List.append_nil _).symm⟩

/-- The machine after the turns of the events of a docket. -/
def turns (m : Moment α) (docket : Docket α) : Machine α FrameOp :=
  m.idle.handle (docket.events MailFate.isQueued)

theorem turns_concat_queued (m : Moment α) (docket : Docket α) (letter : Message α) :
    m.turns (docket ++ [(letter, .queued)]) =
      (m.turns docket).trigger letter.affinity letter.payload := by
  rw [turns, Docket.events_append, Machine.handle_append]
  rfl

/-- A pass of the machine, in which frame and world become `f` and `w`. Its `turns` end on the given board
and in the given surroundings. -/
structure Pass (m : Moment α) (f : Frame α) (w : World α) (turns : List (Vivarium.Turn α (Surroundings α)))
    (board : Board α) (s : Surroundings α) : Prop where
  /-- First the queue is served: its events start threads, first queued first, as far as there is room. -/
  served : (m.turns m.past).threads = m.frame.cpu.threads ++
    ((m.past.events MailFate.isQueued).filterMap m.frame.cpu.start?).take
      (m.frame.cpu.limits.maxThreads - m.frame.cpu.threadCount)
  /-- Then every thread that is there has one turn. -/
  order : turns.map (·.thread) = (m.turns m.past).threads
  chained : Turns (environment m.frame.pos m.frame.facing) m.frame.cpu.limits m.frame.cpu.program
    turns.length m.frame.cpu.board ⟨m.world, m.frame.membrane, m.frame.msgDir⟩ turns board s
  threads : f.cpu.threads =
    (turns.map fun t => (t.step (environment m.frame.pos m.frame.facing) m.frame.cpu.limits
        m.frame.cpu.program turns.length).1).filter (!·.isEmpty) ++
      turns.filterMap (·.fork? m.frame.cpu.limits m.frame.cpu.program turns.length)
  events : f.cpu.events = []
  others : f = { m.frame with
    cpu := { m.frame.cpu with
      threads := f.cpu.threads
      events := f.cpu.events
      board := { board with pending := [] } }
    membrane := s.membrane
    msgDir := s.msgDir }
  world : w = s.world

/-- A frame that steps goes through a pass. -/
theorem Agrees.exists_pass (h : m.Agrees) {f : Frame α} {w : World α}
    (hpass : m.frame.stepOnce m.world = .ok (f, w)) : ∃ turns board s, m.Pass f w turns board s := by
  obtain ⟨turns, board, s, hturns, hmap, hprocess⟩ :=
    h.rested.exists_schedule (environment m.frame.pos m.frame.facing)
      ⟨m.world, m.frame.membrane, m.frame.msgDir⟩
  have hserved : (m.turns m.past).threads = m.frame.cpu.threads ++
      (m.frame.cpu.events.filterMap m.frame.cpu.start?).take
        (m.frame.cpu.limits.maxThreads - m.frame.cpu.threadCount) := by
    rw [Moment.turns, h.queue]
    exact congrArg Machine.threads h.rested.drain
  have hexecute := Frame.of_stepOnce_ok hpass
  rw [Frame.execute, hprocess] at hexecute
  obtain ⟨rfl, rfl⟩ := Prod.mk.inj hexecute
  refine ⟨turns, board, s, ?_, hmap.trans hserved.symm, hturns, rfl, rfl, rfl, rfl⟩
  rw [h.queue]
  exact hserved

/-- The turn of an event after the events before it, in a pass that leaves the notes `later` and in which
the threads have these `turns`. -/
structure Turn (m : Moment α) (before : Docket α) (letter : Message α) (later : Docket α)
    (turns : List (Vivarium.Turn α (Surroundings α))) : Prop where
  /-- If a function answers and a core is free, a thread starts, and takes its first step in the pass. -/
  starts : ∀ function, m.frame.cpu.board.resolve? letter.affinity = some function →
    (m.turns before).threads.length < m.frame.cpu.limits.maxThreads →
    later[before.length]? = some (letter, .started) ∧
    (m.turns (before ++ [(letter, .queued)])).threads =
      (m.turns before).threads ++ [[.enter function letter.payload]] ∧
    turns[(m.turns before).threads.length]?.map (·.thread) = some [.enter function letter.payload]
  /-- If no function answers or no core is free, nothing happens. -/
  passes : m.frame.cpu.board.resolve? letter.affinity = none ∨
      m.frame.cpu.limits.maxThreads ≤ (m.turns before).threads.length →
    later[before.length]? = some (letter, .unheard) ∧
    (m.turns (before ++ [(letter, .queued)])).threads = (m.turns before).threads

/-- No event takes a thread away. -/
theorem Agrees.prefix_turns (h : m.Agrees) (before after : Docket α) :
    (m.turns before).threads <+: (m.turns (before ++ after)).threads := by
  have hpending : (m.turns before).board.pending = [] :=
    (congrArg Board.pending (m.idle.board_handle _)).trans h.rested.pending
  have hsplit : m.turns (before ++ after) =
      (m.turns before).handle (after.events MailFate.isQueued) := by
    rw [turns, Docket.events_append, Machine.handle_append]
    rfl
  rw [hsplit, Machine.handle_eq hpending]
  exact List.prefix_append _ _

/-- Every queued event has its turn in the pass. -/
theorem Agrees.turn (h : m.Agrees) {f : Frame α} {w : World α} {before after : Docket α}
    {letter : Message α} {turns : List (Vivarium.Turn α (Surroundings α))}
    (hpast : m.past = before ++ (letter, .queued) :: after)
    (horder : turns.map (·.thread) = (m.turns m.past).threads) :
    m.Turn before letter (m.serve f w).past turns := by
  have hboard : (m.turns before).board = m.frame.cpu.board := m.idle.board_handle _
  have hlimits : (m.turns before).limits = m.frame.cpu.limits := m.idle.limits_handle _
  have hpending : (m.turns before).board.pending = [] :=
    (congrArg Board.pending hboard).trans h.rested.pending
  -- The messages that the frame did not live to read stand behind all others.
  have hserved : (m.serve f w).past[before.length]? = some (letter,
      if ((m.turns before).trigger? letter.affinity letter.payload).isSome then .started
      else .unheard) := by
    obtain ⟨swept, hserved⟩ := m.past_serve f w
    have hlt : before.length < (m.past.serve m.idle).length := by
      rw [m.past.length_serve, hpast, List.length_append, List.length_cons]
      omega
    rw [hserved, List.getElem?_append_left hlt, hpast]
    exact before.serve_turn after letter m.idle
  constructor
  · intro function hfunction hroom
    have hstarts : (m.turns (before ++ [(letter, .queued)])).threads =
        (m.turns before).threads ++ [[.enter function letter.payload]] := by
      rw [turns_concat_queued, Machine.trigger,
        Machine.trigger?_eq_some hpending letter.payload (hboard ▸ hfunction) (hlimits ▸ hroom)]
      rfl
    refine ⟨?_, hstarts, ?_⟩
    · rw [hserved,
        Machine.trigger?_eq_some hpending letter.payload (hboard ▸ hfunction) (hlimits ▸ hroom)]
      rfl
    · -- The events after it add threads behind that of the message.
      have hprefix := h.prefix_turns (before ++ [(letter, .queued)]) after
      rw [List.append_assoc, List.singleton_append, ← hpast, hstarts] at hprefix
      obtain ⟨more, hmore⟩ := hprefix
      rw [← List.getElem?_map, horder, ← hmore, List.append_assoc,
        List.getElem?_append_right (Nat.le_refl _), Nat.sub_self]
      rfl
  · intro hdeaf
    rw [hserved, turns_concat_queued, Machine.trigger,
      Machine.trigger?_eq_none letter.payload (hboard.symm ▸ hlimits.symm ▸ hdeaf)]
    exact ⟨rfl, rfl⟩

/-- The way of a message from the inbox to a thread. A frame that reads its inbox empties it and touches
nothing else in the world; behind the events that are queued it puts, in the order of delivery, one for
each message whose best match in the membrane is odd, or none if the inbox is switched off. Over the whole
life of a frame, every message that was ever delivered keeps its place in the notes and its fate as soon as
it is settled, so that what is refused stays refused; the queue holds the events of the messages that are
said to be queued, and the events that were ever queued are those of the messages that are said to have
become events, one for each, in the order of delivery. In a pass of the machine every event has its turn.
It starts a thread, for the function that answers to its tag, if there is one and a core is free after the
turns of the events before it; otherwise it changes no thread. The threads that are there then, those that
were there before and those of the events, take one step each, and the frame goes on with the ones that
live and with their forks. -/
theorem messages_pass_gate :
    (∀ (f : Frame α) (w : World α), f.Reads w (f.queueMessages w).1 (f.queueMessages w).2) ∧
    ∀ {config : Config α} {m : Moment α}, Life config m →
      m.past.events MailFate.isQueued = m.frame.cpu.events ∧
      m.log = m.docket.events MailFate.wasQueued ∧
      m.log.Sublist (m.docket.map (·.1.event)) ∧
      (∀ m', Relation.ReflTransGen Step m m' → m.docket.Forward m'.docket) ∧
      ∀ f w, m.frame.stepOnce m.world = .ok (f, w) →
        m.turns m.past = m.frame.cpu.drain ∧
        ∃ turns board s, m.Pass f w turns board s ∧
          ∀ (before after : Docket α) (letter : Message α),
            m.past = before ++ (letter, .queued) :: after →
            m.Turn before letter (m.serve f w).past turns := by
  refine ⟨fun f w => f.reads_queueMessages w, fun {config m} hlife => ?_⟩
  have h := hlife.agrees
  have hlog : m.log = m.docket.events MailFate.wasQueued := by
    rw [docket, Docket.events_append, Docket.events_map, h.log]
    simp [MailFate.wasQueued]
  refine ⟨h.queue, hlog, ?_, fun m' hsteps => ?_, fun f w hpass => ⟨?_, ?_⟩⟩
  · rw [hlog, Docket.events]
    exact List.filter_sublist.map _
  · induction hsteps with
    | refl => exact .refl _
    | tail _ hstep ih => exact ih.trans hstep.forward
  · rw [turns, h.queue]
    rfl
  · obtain ⟨turns, board, s, hp⟩ := h.exists_pass hpass
    exact ⟨turns, board, s, hp, fun before after letter hpast => h.turn hpast hp.order⟩

def deliver (m : Moment α) (letter : Message α) : Moment α :=
  m.become m.frame (m.world.modify m.frame.pos (Tile.Edit.deliver m.frame.facing letter).apply)

theorem Life.deliver {config : Config α} (h : Life config m) (hpos : m.frame.pos < m.world.size)
    (letters : List (Message α)) : Life config (letters.foldl Moment.deliver m) := by
  induction letters generalizing m with
  | nil => exact h
  | cons letter rest ih =>
    refine ih (h.step (.edit _ hpos)) ?_
    change m.frame.pos < (m.world.modify _ _).size
    rwa [World.size_modify]

/-- A single tile, where tags match only themselves, and no more cores than there have to be. -/
def gatehouse : Config Float :=
  { Config.standard with gridWidth := 1, gridHeight := 1, hwMaxCores := 13, affinityThreshold := 1 }

/-- A bringer for tag seven, a blocker for tag eight and a bringer for tag nine. -/
def doorkeeper : Membrane Float where
  registry := ((((Registry.empty 1).insert (.new 7) 3).2.insert (.new 8) 2).2.insert (.new 9) 3).2
  index := ((∅ : Std.HashMap Tag Handle).insert (.new 7) 0).insert (.new 8) 1 |>.insert (.new 9) 2

def callers : List (Message Float) :=
  ([7, 8, 9] ++ List.replicate 13 7 : List UInt64).map fun tag => ⟨.internal, .new tag, .empty, 0, 0⟩

/-- The first frame of a new world after it has read its inbox. Its program answers to tag seven. -/
def porter (w : World Float) : Moment Float :=
  let visited := callers.foldl Moment.deliver ⟨.build 0 .up gatehouse (.ofSeed 7), w, [], []⟩
  let fitted := { visited with frame := { visited.frame with membrane := doorkeeper } }
  read { fitted with frame := fitted.frame.setProgram ⟨[⟨.new 7, [.bare (.builtin .nop)]⟩]⟩ }

/-- The first message starts a thread. Tag eight is refused, no function answers to tag nine, and the last
of the sixteen does not find a core. All thirteen threads are then past their first instruction. -/
theorem messages_pass_gate_porter : ∃ (m : Moment Float) (f : Frame Float) (w : World Float)
    (letter : Message Float) (after : Docket Float)
    (turns : List (Vivarium.Turn Float (Surroundings Float))) (board : Board Float)
    (s : Surroundings Float),
    Life gatehouse m ∧ m.frame.stepOnce m.world = .ok (f, w) ∧ m.log.length = 15 ∧
    m.past = (letter, .queued) :: after ∧
    m.frame.cpu.board.resolve? letter.affinity = some 0 ∧
    (m.turns []).threads.length < m.frame.cpu.limits.maxThreads ∧
    (m.serve f w).past[0]? = some (letter, .started) ∧
    (m.turns [(letter, .queued)]).threads = (m.turns []).threads ++ [[.enter 0 letter.payload]] ∧
    m.Pass f w turns board s ∧
    turns[(m.turns []).threads.length]?.map (·.thread) = some [.enter 0 letter.payload] ∧
    f.cpu.threads.map (·.map (·.pointer)) = List.replicate 13 [1] ∧
    (m.serve f w).past.map (·.2) =
      [.started, .refused, .unheard] ++ List.replicate 12 .started ++ [.unheard] := by
  have hrun : yields (World.new gatehouse) (fun w₀ =>
      let m := porter w₀
      let fw := m.frame.execute m.world
      decide (0 < w₀.size ∧ m.frame.hasProgram = true ∧
        (m.docket.events MailFate.wasQueued).length = 15 ∧
        m.past.head?.map (·.2) = some .queued ∧
        m.past.head?.bind (m.frame.cpu.board.resolve? ·.1.affinity) = some 0 ∧
        (m.turns []).threads.length < m.frame.cpu.limits.maxThreads ∧
        fw.1.cpu.threads.map (·.map (·.pointer)) = List.replicate 13 [1] ∧
        (m.serve fw.1 fw.2).past.map (·.2) =
          [.started, .refused, .unheard] ++ List.replicate 12 .started ++ [.unheard])) = true := by
    decide +kernel
  obtain ⟨w₀, hnew, ht⟩ := of_yields hrun
  obtain ⟨hsize, hprogram, hevents, hqueued, hanswers, hroom, hpointers, hfates⟩ := of_decide_eq_true ht
  have hlife : Life gatehouse (porter w₀) :=
    ((((Life.start .up (.ofSeed 7) hnew hsize).deliver hsize callers).step (.refit _ _)).step
      (.load _ _)).step (.read _)
  generalize porter w₀ = m at hprogram hevents hqueued hanswers hroom hpointers hfates hlife
  have hstep : m.frame.stepOnce m.world = .ok (m.frame.execute m.world) := by
    rw [Frame.stepOnce, if_pos hprogram]
  generalize m.frame.execute m.world = result at hstep hpointers hfates
  obtain ⟨letter, after, hpast⟩ : ∃ letter after, m.past = (letter, .queued) :: after := by
    obtain ⟨⟨letter, fate⟩, hhead, rfl⟩ := Option.map_eq_some_iff.1 hqueued
    exact ⟨letter, m.past.tail, List.eq_cons_of_mem_head? hhead⟩
  rw [hpast] at hanswers
  obtain ⟨-, hlog, -, -, hpass⟩ := messages_pass_gate.2 hlife
  obtain ⟨-, turns, board, s, hpass, hturns⟩ := hpass result.1 result.2 hstep
  obtain ⟨hstarted, hthreads, hturn⟩ := (hturns [] after letter hpast).starts 0 hanswers hroom
  exact ⟨m, result.1, result.2, letter, after, turns, board, s, hlife, hstep, hlog ▸ hevents, hpast,
    hanswers, hroom, hstarted, hthreads, hpass, hturn, hpointers, hfates⟩

end Moment

end Vivarium
