import Vivarium.Machine.Step
/-!
# Passes

A pass first turns the queued events into threads, in order, as long as there is room. Then every
thread takes one step, in order. Dead threads go, and those forked during the pass come last.
-/
namespace Vivarium

variable {α X σ : Type} [Scalar α]

/-- Every thread takes one step, first to last. -/
def Board.pass (host : Host α X σ) (limits : Limits α) (program : Program X) (live : Nat) :
    List (Thread α) → Board α → σ → List (Thread α) × Board α × σ
  | [], b, s => ([], b, s)
  | t :: rest, b, s =>
    let (t, b, s) := t.step host limits program live b s
    let (rest, b, s) := Board.pass host limits program live rest b s
    (t :: rest, b, s)

namespace Machine

/-- Turn the queued events into threads. -/
def drain (m : Machine α X) : Machine α X := { m with events := [] }.handle m.events

/-- One step of every thread, without looking at the queue. -/
def advance (host : Host α X σ) (m : Machine α X) (s : σ) : Machine α X × σ :=
  let (threads, board, s) :=
    Board.pass host m.limits m.program m.threads.length m.threads m.board s
  let alive := threads.filter (!·.isEmpty)
  let room := m.limits.maxThreads - alive.length
  ({ m with
      threads := alive ++ board.pending.take room
      board := { board with pending := [] } }, s)

/-- One whole pass. -/
def process (host : Host α X σ) (m : Machine α X) (s : σ) : Machine α X × σ :=
  m.drain.advance host s

end Machine

end Vivarium
