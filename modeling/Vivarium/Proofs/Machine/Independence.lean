import Vivarium.Proofs.Machine.Blocks
/-!
# Threads that share nothing

A thread whose program neither writes nor draws from the board, forks or calls its host finds the same
dispatch registry at every step, and its steps depend on nothing else but the thread. So a pass takes
each thread to where it would have come alone. Main statement: after any number of passes the threads
of a machine are those that its threads become when each has a machine to itself.
-/
namespace Vivarium

variable {α X σ : Type}

/-- The operation leaves the board as it is and reads no more of it than the dispatch registry. -/
def Op.isPrivate : Op X → Bool
  | .builtin .commit | .builtin .pull | .builtin .rng | .builtin .fork => false
  | .builtin .adjRegulator | .builtin .setRegulator => false
  | .builtin _ => true
  | .ext _ => false

def Host.inert : Host α X Unit := ⟨fun _ _ w s => (w, s)⟩

variable [Scalar α]

/-! ## Steps -/

/-- What a step makes of a thread that shares nothing. -/
def Thread.next (limits : Limits α) (program : Program X) (matcher : Registry α Nat)
    (t : Thread α) : Thread α :=
  (t.step Host.inert limits program 0 ⟨matcher, .empty, [], .ofSeed 0⟩ ()).1

/-- A private operation of the built-in ones, on boards with the same registry. -/
theorem perform_private {op : Builtin} (hop : Op.isPrivate (.builtin op : Op X) = true)
    {b c : Board α} (hbc : c.matcher = b.matcher) (limits : Limits α) (body : List (Instruction X))
    (args : Operands) (affinity : Tag) (f : CallFrame α) :
    perform limits body op args affinity f b = ((perform limits body op args affinity f c).1, b) := by
  cases op with
  | commit | pull | rng | fork | adjRegulator | setRegulator => cases hop
  | senseRegulator => simp only [perform, Board.regulation, hbc]
  | _ => rfl

/-- A step of a thread that shares nothing changes the thread alone, whatever host and board it
finds. -/
theorem Thread.step_private {program : Program X} (hp : program.Only Op.isPrivate)
    (host : Host α X σ) (limits : Limits α) (live : Nat) (t : Thread α) (b : Board α) (s : σ) :
    t.step host limits program live b s = (t.next limits program b.matcher, b, s) := by
  cases t with
  | nil => rfl
  | cons f rest =>
    unfold next
    cases hf : program.function? f.function with
    | none => simp only [step, hf]
    | some function =>
      cases hi : function.body[f.pointer]? with
      | none => simp only [step, hf, hi]
      | some i =>
        have hop := hp.permits hf hi
        simp only [step, hf, hi]
        cases hi' : i.op with
        | ext x =>
          rw [hi'] at hop
          cases hop
        | builtin op =>
          rw [hi'] at hop
          cases op with
          | call => simp only [call, Board.resolve?]
          | ret | terminate => rfl
          | fork => cases hop
          | _ =>
            have hperform := perform_private hop
              (show (⟨b.matcher, .empty, [], .ofSeed 0⟩ : Board α).matcher = b.matcher from rfl)
              limits function.body i.args i.affinity { f with pointer := f.pointer + 1 }
            exact congrArg (fun r : CallFrame α × Board α => (r.1 :: rest, r.2, s)) hperform

/-! ## Passes -/

/-- What a pass leaves of a thread that shares nothing. -/
def Thread.survivor? (limits : Limits α) (program : Program X) (matcher : Registry α Nat)
    (t : Thread α) : Option (Thread α) :=
  if (t.next limits program matcher).isEmpty then none else some (t.next limits program matcher)

def Thread.later? (limits : Limits α) (program : Program X) (matcher : Registry α Nat) :
    Nat → Thread α → Option (Thread α)
  | 0, t => some t
  | k + 1, t => (t.survivor? limits program matcher).bind (later? limits program matcher k)

/-- In a pass threads that share nothing go their own ways, and nothing else changes. -/
theorem Board.pass_private {program : Program X} (hp : program.Only Op.isPrivate)
    (host : Host α X σ) (limits : Limits α) (live : Nat) (threads : List (Thread α)) (b : Board α)
    (s : σ) : Board.pass host limits program live threads b s =
      (threads.map (·.next limits program b.matcher), b, s) := by
  induction threads with
  | nil => rfl
  | cons t rest ih => simp only [Board.pass, Thread.step_private hp, ih, List.map_cons]

theorem Thread.filter_map_next (limits : Limits α) (program : Program X)
    (matcher : Registry α Nat) (threads : List (Thread α)) :
    (threads.map (·.next limits program matcher)).filter (!·.isEmpty) =
      threads.filterMap (·.survivor? limits program matcher) := by
  induction threads with
  | nil => rfl
  | cons t rest ih =>
    rw [List.map_cons, List.filter_cons, ih, List.filterMap_cons, survivor?]
    cases (t.next limits program matcher).isEmpty with
    | true => rfl
    | false => rfl

namespace Machine

variable {m n : Machine α X}

structure Quiet (m : Machine α X) : Prop where
  events : m.events = []
  pending : m.board.pending = []

theorem Quiet.drain (h : m.Quiet) : m.drain = m := by
  obtain ⟨program, board, threads, events, limits⟩ := m
  obtain rfl : events = [] := h.events
  rfl

/-- A pass over threads that share nothing. -/
theorem Quiet.process_private (h : m.Quiet) (hp : m.program.Only Op.isPrivate)
    (host : Host α X σ) (s : σ) :
    m.process host s = ({ m with
      threads := m.threads.filterMap (·.survivor? m.limits m.program m.board.matcher) }, s) := by
  have hboard : ({ m.board with pending := [] } : Board α) = m.board := by
    rw [← h.pending]
  rw [process, h.drain, advance]
  simp only [Board.pass_private hp, Thread.filter_map_next, h.pending, List.take_nil,
    List.append_nil, hboard]

/-- Passes over threads that share nothing take each of them the same way as any other. -/
theorem Quiet.threads_after (h : m.Quiet) (hp : m.program.Only Op.isPrivate)
    (visits : List (Visit α X)) : (m.after visits).threads =
      m.threads.filterMap (·.later? m.limits m.program m.board.matcher visits.length) := by
  induction visits generalizing m with
  | nil => exact List.filterMap_some.symm
  | cons v rest ih =>
    have hfirst := h.process_private hp v.host v.state
    have hrest := ih (m := (m.process v.host v.state).1) (hfirst ▸ ⟨h.events, h.pending⟩) (hfirst ▸ hp)
    rw [after_cons, hrest, hfirst, List.filterMap_filterMap]
    rfl

/-- The thread is alone in a machine with the program, the limits and the dispatch registry of another
machine. -/
structure Alone (m : Machine α X) (t : Thread α) (n : Machine α X) : Prop where
  quiet : n.Quiet
  program : n.program = m.program
  limits : n.limits = m.limits
  matcher : n.board.matcher = m.board.matcher
  threads : n.threads = [t]

/-- What becomes of a thread alone is what becomes of it by itself. -/
theorem Alone.threads_after {t : Thread α} (h : m.Alone t n) (hp : m.program.Only Op.isPrivate)
    (visits : List (Visit α X)) : (n.after visits).threads =
      (t.later? m.limits m.program m.board.matcher visits.length).toList := by
  rw [h.quiet.threads_after (h.program ▸ hp), h.program, h.limits, h.matcher, h.threads,
    List.filterMap_cons, List.filterMap_nil]
  cases t.later? m.limits m.program m.board.matcher visits.length with
  | none => rfl
  | some u => rfl

/-- Threads that share nothing are independent. After any number of passes the threads of a machine
are, in their order, what each of them has become in as many passes of a machine of its own, whatever
the hosts, the shared memories and the generators. -/
theorem threads_independent (hp : m.program.Only Op.isPrivate) (hm : m.Quiet)
    (visits : List (Visit α X)) {lone : Thread α → Machine α X}
    {calls : Thread α → List (Visit α X)}
    (hlone : ∀ t ∈ m.threads, m.Alone t (lone t) ∧ (calls t).length = visits.length) :
    (m.after visits).threads =
      m.threads.flatMap fun t => ((lone t).after (calls t)).threads := by
  rw [hm.threads_after hp, List.filterMap_eq_flatMap_toList]
  apply List.flatMap_congr
  intro t ht
  obtain ⟨halone, hcalls⟩ := hlone t ht
  rw [halone.threads_after hp, hcalls]

/-- One function counts down in a loop, another calls a third, which ends the thread. -/
def duet : Program FrameOp :=
  ⟨[⟨.new 0, [⟨.builtin .setMem, ⟨0, 2, 0⟩, .new 0⟩, .bare (.builtin .countdown),
      .bare (.builtin .close)]⟩,
    ⟨.new 3, [⟨.builtin .call, .zero, .new 7⟩]⟩,
    ⟨.new 7, [.bare (.builtin .terminate)]⟩]⟩

def inDuet : Machine Rat FrameOp :=
  (((Machine.new (.ofSeed 0) ⟨4, 8, 0, 0⟩).load duet).trigger (.new 0) .empty).trigger (.new 3) .empty

/-- A thread of the two alone, where the shared memory and the generator differ. -/
def inSolo (t : Thread Rat) : Machine Rat FrameOp :=
  { inDuet with
    threads := [t]
    board := { inDuet.board with shared := Memory.empty.set 0 5, rng := .ofSeed 1 } }

/-- After three passes the second thread is dead and the first is back at its loop, as if each had been
alone. -/
theorem threads_independent_duet :
    let visits := List.replicate 3 (Visit.mk idle ())
    ((inDuet.after visits).threads.map fun t => t.map (·.pointer)) = [[1]] ∧
      (inDuet.after visits).threads =
        inDuet.threads.flatMap fun t => ((inSolo t).after visits).threads := by
  intro visits
  have hp : inDuet.program.Only Op.isPrivate := by decide +kernel
  have hm : inDuet.Quiet := ⟨by decide +kernel, by decide +kernel⟩
  have hlone : ∀ t ∈ inDuet.threads, inDuet.Alone t (inSolo t) ∧ visits.length = visits.length :=
    fun t _ => ⟨⟨⟨hm.events, hm.pending⟩, rfl, rfl, rfl, rfl⟩, rfl⟩
  exact ⟨by decide +kernel, threads_independent hp hm visits hlone⟩

end Machine

end Vivarium
