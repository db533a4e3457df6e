import Vivarium.Proofs.Machine.Run
/-!
# Logs

A host can keep a log of the instructions it carries out. Nothing else depends on the log, so it is
a true account of what the threads of a machine did in a pass, in the order in which they did it.
-/
namespace Vivarium

variable {α X σ β : Type}

/-- The host, which notes something of every instruction before it carries it out. -/
def Host.logged (host : Host α X σ) (note : X → Site α X → Scratch α → σ → List β) :
    Host α X (σ × List β) where
  execute x site m s :=
    ((host.execute x site m s.1).1, (host.execute x site m s.1).2, s.2 ++ note x site m s.1)

variable [Scalar α] (host : Host α X σ) (note : X → Site α X → Scratch α → σ → List β)

/-- A step, with the log struck out. -/
theorem Thread.step_logged (limits : Limits α) (program : Program X) (live : Nat) (t : Thread α)
    (b : Board α) (s : σ × List β) :
    t.step host limits program live b s.1 =
      ((t.step (host.logged note) limits program live b s).1,
        (t.step (host.logged note) limits program live b s).2.1,
        (t.step (host.logged note) limits program live b s).2.2.1) := by
  cases t with
  | nil => rfl
  | cons f rest =>
    cases hf : program.function? f.function with
    | none => simp only [Thread.step, hf]
    | some function =>
      cases hi : function.body[f.pointer]? with
      | none => simp only [Thread.step, hf, hi]
      | some i =>
        simp only [Thread.step, hf, hi]
        split
        any_goals rfl

/-- A pass does not depend on whether notes are taken. -/
theorem Board.pass_logged (limits : Limits α) (program : Program X) (live : Nat)
    (threads : List (Thread α)) (b : Board α) (s : σ × List β) :
    Board.pass host limits program live threads b s.1 =
      ((Board.pass (host.logged note) limits program live threads b s).1,
        (Board.pass (host.logged note) limits program live threads b s).2.1,
        (Board.pass (host.logged note) limits program live threads b s).2.2.1) := by
  induction threads generalizing b s with
  | nil => rfl
  | cons t rest ih => simp only [Board.pass, t.step_logged host note, ih]

/-- The log changes neither the machine nor what the host does otherwise. -/
theorem Machine.process_logged (m : Machine α X) (s : σ × List β) :
    m.process host s.1 =
      ((m.process (host.logged note) s).1, (m.process (host.logged note) s).2.1) := by
  simp only [Machine.process, Machine.advance, Board.pass_logged host note]

end Vivarium
