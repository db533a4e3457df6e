import Vivarium.Proofs.Machine.Capacity
/-!
# The schedule of a pass

A pass first starts a thread for every queued event that matches a function, first queued first, as
far as there is room. Then every thread that is alive has one turn, in the order of the list, and none
that is forked meanwhile has one. Forks are accepted as long as the threads that were alive when the
turns began leave room for them; the dead make room only after the pass, so whatever was accepted
still finds its place.
-/
namespace Vivarium

variable {α X σ : Type} [Scalar α]

/-- A fresh thread at the function that best matches a tag. -/
def Board.start? (b : Board α) (affinity : Tag) (payload : Memory α) : Option (Thread α) :=
  (b.resolve? affinity).map fun callee => [.enter callee payload]

/-- The fork that a thread is about to make, by its tag and the memory it hands over. -/
def Thread.forking? (program : Program X) : Thread α → Option (Tag × Memory α)
  | [] => none
  | f :: _ =>
    match (program.function? f.function).bind (·.body[f.pointer]?) with
    | some ⟨.builtin .fork, _, affinity⟩ => some (affinity, f.locals)
    | _ => none

/-- A thread whose turn has come, with the board and the state of the host that it finds. -/
structure Turn (α σ : Type) where
  thread : Thread α
  board : Board α
  state : σ

namespace Turn

def step (host : Host α X σ) (limits : Limits α) (program : Program X) (live : Nat)
    (t : Turn α σ) : Thread α × Board α × σ :=
  t.thread.step host limits program live t.board t.state

/-- The thread of a fork that is accepted: there is room beside the `live` threads and those that
wait, and its tag matches. -/
def fork? (limits : Limits α) (program : Program X) (live : Nat) (t : Turn α σ) :
    Option (Thread α) :=
  match t.thread.forking? program with
  | none => none
  | some (affinity, payload) =>
    if limits.maxThreads ≤ live + t.board.pending.length then none
    else t.board.start? affinity payload

end Turn

/-- Turns in a row: each begins with the board and the state in which the one before it ended. -/
inductive Turns (host : Host α X σ) (limits : Limits α) (program : Program X) (live : Nat) :
    Board α → σ → List (Turn α σ) → Board α → σ → Prop where
  | done (b : Board α) (s : σ) : Turns host limits program live b s [] b s
  | turn {t : Turn α σ} {rest : List (Turn α σ)} {c : Board α} {u : σ} :
      Turns host limits program live (t.step host limits program live).2.1
        (t.step host limits program live).2.2 rest c u →
      Turns host limits program live t.board t.state (t :: rest) c u

/-! ## Forks -/

theorem Board.pending_regulate (b : Board α) (affinity : Tag)
    (change : Registry α Nat → Handle → Option (Registry α Nat)) :
    (b.regulate affinity change).pending = b.pending := by
  unfold regulate
  split
  · rfl
  · rfl

/-- Only forks add to those that wait. -/
theorem pending_perform (limits : Limits α) (body : List (Instruction X)) (op : Builtin)
    (args : Operands) (affinity : Tag) (f : CallFrame α) (b : Board α) :
    (perform limits body op args affinity f b).2.pending = b.pending := by
  cases op with
  | adjRegulator | setRegulator => exact b.pending_regulate affinity _
  | _ => rfl

/-- A turn sets aside the thread of an accepted fork, and no other. -/
theorem Turn.pending_step (host : Host α X σ) (limits : Limits α) (program : Program X)
    (live : Nat) (t : Turn α σ) :
    (t.step host limits program live).2.1.pending =
      t.board.pending ++ (t.fork? limits program live).toList := by
  obtain ⟨thread, b, s⟩ := t
  unfold step fork?
  cases thread with
  | nil => simp [Thread.step, Thread.forking?]
  | cons f rest =>
    cases hf : program.function? f.function with
    | none => simp [Thread.step, Thread.forking?, hf]
    | some function =>
      cases hi : function.body[f.pointer]? with
      | none => simp [Thread.step, Thread.forking?, hf, hi]
      | some i =>
        obtain ⟨op, args, affinity⟩ := i
        simp only [Thread.step, Thread.forking?, hf, hi, Option.bind_some]
        cases op with
        | ext x => simp [Scratch.board]
        | builtin op =>
          cases op with
          | fork =>
            simp only [Board.fork, Board.start?]
            split
            · simp
            · cases hr : b.resolve? affinity with
              | none => simp
              | some callee => simp
          | call | ret | terminate => simp
          | _ => simp [pending_perform]

namespace Turns

variable {host : Host α X σ} {limits : Limits α} {program : Program X} {live : Nat}
  {b c : Board α} {s u : σ} {before after turns : List (Turn α σ)}

/-- A row of turns can be cut anywhere. -/
theorem cut (h : Turns host limits program live b s (before ++ after) c u) :
    ∃ mid state, Turns host limits program live b s before mid state ∧
      Turns host limits program live mid state after c u := by
  induction before generalizing b s with
  | nil => exact ⟨b, s, .done b s, h⟩
  | cons t rest ih =>
    cases h with
    | turn h =>
      obtain ⟨mid, state, hbefore, hafter⟩ := ih h
      exact ⟨mid, state, .turn hbefore, hafter⟩

/-- What waits at the end is what waited before, and the accepted forks, first accepted first. -/
theorem pending (h : Turns host limits program live b s turns c u) :
    c.pending = b.pending ++ turns.filterMap (·.fork? limits program live) := by
  induction h with
  | done b s => simp
  | @turn t rest c u _ ih =>
    rw [ih, t.pending_step host, List.append_assoc, List.filterMap_cons]
    cases t.fork? limits program live with
    | none => rfl
    | some fresh => rfl

/-- A turn finds waiting what was accepted before it. -/
theorem pending_turn {t : Turn α σ}
    (h : Turns host limits program live b s (before ++ t :: after) c u) :
    t.board.pending = b.pending ++ before.filterMap (·.fork? limits program live) := by
  obtain ⟨mid, state, hbefore, hafter⟩ := h.cut
  cases hafter with
  | turn _ => exact hbefore.pending

/-- Forks fill the room beside the threads that were alive at first, and no more. -/
theorem room_le (h : Turns host limits program live b s turns c u)
    (hb : live + b.pending.length ≤ limits.maxThreads) :
    live + c.pending.length ≤ limits.maxThreads := by
  induction h with
  | done b s => exact hb
  | @turn t rest c u _ ih =>
    apply ih
    rw [t.pending_step host]
    unfold Turn.fork?
    split
    · simpa using hb
    · split
      · simpa using hb
      · next hroom =>
        rw [List.length_append]
        have hone := Option.length_toList_le (o := t.board.start? ‹Tag› ‹Memory α›)
        omega

end Turns

/-- The threads of a pass have one turn each, in the order of the list. -/
theorem Board.exists_turns (host : Host α X σ) (limits : Limits α) (program : Program X)
    (live : Nat) (threads : List (Thread α)) (b : Board α) (s : σ) :
    ∃ turns c u, Turns host limits program live b s turns c u ∧ turns.map (·.thread) = threads ∧
      Board.pass host limits program live threads b s =
        (turns.map fun t => (t.step host limits program live).1, c, u) := by
  induction threads generalizing b s with
  | nil => exact ⟨[], b, s, .done b s, rfl, rfl⟩
  | cons thread rest ih =>
    let t : Turn α σ := ⟨thread, b, s⟩
    obtain ⟨turns, c, u, hturns, hmap, hpass⟩ :=
      ih (t.step host limits program live).2.1 (t.step host limits program live).2.2
    refine ⟨t :: turns, c, u, .turn hturns, ?_, ?_⟩
    · rw [List.map_cons, hmap]
    · simp only [Board.pass]
      exact congrArg (fun r => ((t.step host limits program live).1 :: r.1, r.2)) hpass

/-! ## Machines -/

namespace Machine

/-- The machines that calls of the owner lead to. The owner may call at any time, replace the program
under running threads and put anything in the place of the dispatch registry. -/
inductive Driven : Machine α X → Prop where
  | new (rng : Generator) (limits : Limits α) : Driven (.new rng limits)
  | load {m : Machine α X} (program : Program X) : Driven m → Driven (m.load program)
  | trigger {m : Machine α X} (affinity : Tag) (payload : Memory α) : Driven m →
      Driven (m.trigger affinity payload)
  | enqueue {m : Machine α X} (events : List (Event α)) : Driven m → Driven (m.enqueue events)
  | process {m : Machine α X} {σ : Type} (host : Host α X σ) (s : σ) : Driven m →
      Driven (m.process host s).1
  | reset {m : Machine α X} : Driven m → Driven m.reset
  | tune {m : Machine α X} (matcher : Registry α Nat) : Driven m → Driven (m.setMatcher matcher)
  | reseed {m : Machine α X} (rng : Generator) : Driven m →
      Driven { m with board := { m.board with rng } }

/-- No fork is left waiting, and there are no more threads than there may be. -/
structure Rested (m : Machine α X) : Prop where
  pending : m.board.pending = []
  length_le : m.threads.length ≤ m.limits.maxThreads

def start? (m : Machine α X) (e : Event α) : Option (Thread α) :=
  m.board.start? e.affinity e.payload

variable {m : Machine α X}

/-- A trigger starts the thread of its event, if it matches and there is room. -/
theorem trigger_eq (hp : m.board.pending = []) (e : Event α) :
    m.trigger e.affinity e.payload =
      { m with threads := m.threads ++
          (m.start? e).toList.take (m.limits.maxThreads - m.threads.length) } := by
  unfold trigger trigger? start? Board.start?
  cases m.board.resolve? e.affinity with
  | none => simp
  | some callee =>
    simp only [hp, List.length_nil, Nat.add_zero, Option.map_some, Option.toList_some]
    by_cases hfull : m.limits.maxThreads ≤ m.threads.length
    · simp [hfull, Nat.sub_eq_zero_of_le hfull]
    · have hroom : 1 ≤ m.limits.maxThreads - m.threads.length := by omega
      simp [hfull, List.take_of_length_le (l := [[CallFrame.enter callee e.payload]]) hroom]

/-- Handling events starts threads for those that match, first queued first, while there is room. -/
theorem handle_eq (hp : m.board.pending = []) (events : List (Event α)) :
    m.handle events =
      { m with threads := m.threads ++
          (events.filterMap m.start?).take (m.limits.maxThreads - m.threads.length) } := by
  induction events generalizing m with
  | nil => simp [handle]
  | cons e rest ih =>
    have hmatch : (e :: rest).filterMap m.start? = (m.start? e).toList ++ rest.filterMap m.start? := by
      cases hs : m.start? e with
      | none => simp [hs]
      | some fresh => simp [hs]
    have hrest : m.limits.maxThreads - (m.threads ++
        (m.start? e).toList.take (m.limits.maxThreads - m.threads.length)).length =
        m.limits.maxThreads - m.threads.length - (m.start? e).toList.length := by
      rw [List.length_append, List.length_take]
      omega
    change (m.trigger e.affinity e.payload).handle rest = _
    rw [m.trigger_eq hp e, ih (by exact hp), hmatch, List.take_append, ← List.append_assoc]
    simp only [hrest]
    rfl

/-- The events start threads in their order, as far as there is room. -/
theorem Rested.drain (h : m.Rested) :
    m.drain = { m with
      events := []
      threads := m.threads ++
        (m.events.filterMap m.start?).take (m.limits.maxThreads - m.threadCount) } :=
  handle_eq (m := { m with events := [] }) h.pending m.events

/-- The threads that are alive when the queue is empty have their turns; those that are still alive
stay in their order, and behind them come the accepted forks, for all of which there is room. -/
theorem Rested.exists_schedule (h : m.Rested) (host : Host α X σ) (s : σ) :
    ∃ turns board u, Turns host m.limits m.program turns.length m.board s turns board u ∧
      turns.map (·.thread) = m.threads ++
        (m.events.filterMap m.start?).take (m.limits.maxThreads - m.threadCount) ∧
      m.process host s =
        ({ m with
            events := []
            threads := (turns.map fun t => (t.step host m.limits m.program turns.length).1).filter
                (!·.isEmpty) ++
              turns.filterMap (·.fork? m.limits m.program turns.length)
            board := { board with pending := [] } }, u) := by
  have hdrain := h.drain
  generalize hstarted : m.threads ++
    (m.events.filterMap m.start?).take (m.limits.maxThreads - m.threadCount) = started at hdrain ⊢
  have hlive : started.length ≤ m.limits.maxThreads := by
    rw [← hstarted, List.length_append, List.length_take]
    exact Nat.le_trans (Nat.add_le_add_left (Nat.min_le_left _ _) _)
      (Nat.le_of_eq (Nat.add_sub_cancel' h.length_le))
  obtain ⟨turns, board, u, hturns, hmap, hpass⟩ :=
    Board.exists_turns host m.limits m.program started.length started m.board s
  have hlength : turns.length = started.length := by rw [← hmap, List.length_map]
  refine ⟨turns, board, u, by rw [hlength]; exact hturns, hmap, ?_⟩
  have hpending := hturns.pending
  rw [h.pending, List.nil_append] at hpending
  -- The dead make more room than the forks were measured against.
  have hroom : board.pending.length ≤ m.limits.maxThreads -
      ((turns.map fun t => (t.step host m.limits m.program started.length).1).filter
        (!·.isEmpty)).length := by
    have htotal := hturns.room_le (by rw [h.pending]; exact hlive)
    have halive := List.length_filter_le (!·.isEmpty)
      (turns.map fun t => (t.step host m.limits m.program started.length).1)
    rw [List.length_map, hlength] at halive
    omega
  rw [process, hdrain, advance]
  simp only [hpass, hlength]
  rw [List.take_of_length_le hroom, hpending]

theorem Rested.trigger (h : m.Rested) (e : Event α) :
    (m.trigger e.affinity e.payload).Rested := by
  have hle := h.length_le
  rw [m.trigger_eq h.pending e]
  constructor
  · exact h.pending
  · simp only [List.length_append, List.length_take]
    omega

/-- After a pass no fork is left waiting. -/
theorem Rested.process (h : m.Rested) (host : Host α X σ) (s : σ) :
    (m.process host s).1.Rested := by
  obtain ⟨turns, board, u, hturns, hmap, he⟩ := h.exists_schedule host s
  rw [he]
  constructor
  · rfl
  · have hlive : turns.length ≤ m.limits.maxThreads := by
      have hle := h.length_le
      have hlength := congrArg List.length hmap
      rw [List.length_map, List.length_append, List.length_take] at hlength
      simp only [threadCount] at hlength
      omega
    have htotal := hturns.room_le (by rw [h.pending]; exact hlive)
    rw [hturns.pending, h.pending, List.nil_append] at htotal
    have halive := List.length_filter_le (!·.isEmpty)
      (turns.map fun t => (t.step host m.limits m.program turns.length).1)
    rw [List.length_map] at halive
    simp only [List.length_append]
    omega

/-- Between calls no fork is left waiting. -/
theorem Driven.rested (h : m.Driven) : m.Rested := by
  induction h with
  | new rng limits => exact ⟨rfl, Nat.zero_le _⟩
  | load program _ ih => exact ⟨ih.pending, ih.length_le⟩
  | trigger affinity payload _ ih => exact ih.trigger ⟨affinity, payload⟩
  | enqueue events _ ih => exact ⟨ih.pending, ih.length_le⟩
  | process host s _ ih => exact ih.process host s
  | reset _ _ => exact ⟨rfl, Nat.zero_le _⟩
  | tune matcher _ ih => exact ⟨ih.pending, ih.length_le⟩
  | reseed rng _ ih => exact ⟨ih.pending, ih.length_le⟩

/-- The schedule of a pass. Every pass empties the queue and starts the first queued events that
match, as many as there is room for. Each thread that is then alive has one turn, in the order of the
list, on what the turn before left, and a fork is accepted against the threads alive at first and
those accepted before it. The stepped threads that are alive come first in the next list, in their
order, and behind them every accepted fork, first accepted first. -/
theorem process_schedule (h : m.Driven) (host : Host α X σ) (s : σ) :
    ∃ turns board u, Turns host m.limits m.program turns.length m.board s turns board u ∧
      turns.map (·.thread) = m.threads ++
        (m.events.filterMap m.start?).take (m.limits.maxThreads - m.threadCount) ∧
      (∀ before t after, turns = before ++ t :: after →
        t.board.pending = before.filterMap (·.fork? m.limits m.program turns.length)) ∧
      m.process host s =
        ({ m with
            events := []
            threads := (turns.map fun t => (t.step host m.limits m.program turns.length).1).filter
                (!·.isEmpty) ++
              turns.filterMap (·.fork? m.limits m.program turns.length)
            board := { board with pending := [] } }, u) := by
  obtain ⟨turns, board, u, hturns, hmap, he⟩ := h.rested.exists_schedule host s
  refine ⟨turns, board, u, hturns, hmap, fun before t after hcut => ?_, he⟩
  rw [hcut] at hturns ⊢
  rw [hturns.pending_turn, h.rested.pending, List.nil_append]

/-- A function that forks into itself over and over, and one that ends at once. -/
def nursery : Program FrameOp :=
  ⟨[⟨.new 0, [.bare (.builtin .fork)]⟩, ⟨.new 7, [.bare (.builtin .terminate)]⟩]⟩

/-- A thread that ends at once and one that forks; an event that matches nothing and one that does
wait. Four threads at most. -/
def nursing : Machine Rat FrameOp :=
  ((((Machine.new (.ofSeed 0) ⟨4, 2, 1, 0⟩).load nursery).trigger (.new 7) .empty).trigger
    (.new 0) .empty).enqueue [⟨.new 1, .empty⟩, ⟨.new 0, .empty⟩]

/-- One event starts a thread. Of the two forks that follow the first is accepted, the second finds
the machine full although a thread has just ended. -/
theorem process_schedule_nursery :
    nursing.Driven ∧
    nursing.events.filterMap nursing.start? = [[.enter 0 .empty]] ∧
    ((nursing.process idle ()).1.threads.map fun t => t.map (·.pointer)) = [[1], [1], [0]] ∧
    ∃ turns board u, Turns idle nursing.limits nursing.program turns.length nursing.board () turns
        board u ∧
      turns.map (·.thread) = nursing.threads ++
        (nursing.events.filterMap nursing.start?).take
          (nursing.limits.maxThreads - nursing.threadCount) ∧
      (∀ before t after, turns = before ++ t :: after →
        t.board.pending = before.filterMap (·.fork? nursing.limits nursing.program turns.length)) ∧
      nursing.process idle () =
        ({ nursing with
            events := []
            threads := (turns.map fun t =>
                (t.step idle nursing.limits nursing.program turns.length).1).filter
                (!·.isEmpty) ++
              turns.filterMap (·.fork? nursing.limits nursing.program turns.length)
            board := { board with pending := [] } }, u) := by
  have hm : nursing.Driven :=
    .enqueue _ (.trigger _ _ (.trigger _ _ (.load nursery (.new _ _))))
  exact ⟨hm, by decide +kernel, by decide +kernel, process_schedule hm idle ()⟩

end Machine

end Vivarium
