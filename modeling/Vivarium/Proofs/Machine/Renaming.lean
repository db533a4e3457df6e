import Vivarium.Proofs.Affinity.Renaming
import Vivarium.Proofs.Machine.Run
/-!
# Machines under other names

The handles of its dispatch registry are nothing to a machine: with all of them shifted it starts the
same threads, and they do the same. What a host does for the threads may depend on a state of its own;
two hosts that write the same, whatever their states, cannot be told apart either.
-/
namespace Vivarium

variable {α X σ τ : Type} [Scalar α]

/-! ## Handles -/

def Board.shift (k : Nat) (b : Board α) : Board α := { b with matcher := b.matcher.shift k }

def Machine.shift (k : Nat) (m : Machine α X) : Machine α X := { m with board := m.board.shift k }

namespace Board

variable (k : Nat) (b : Board α)

theorem resolve?_shift (affinity : Tag) : (b.shift k).resolve? affinity = b.resolve? affinity := by
  rw [resolve?, resolve?, shift, Registry.best?_shift, Option.map_map]
  rfl

theorem regulation_shift (affinity : Tag) :
    (b.shift k).regulation affinity = b.regulation affinity := by
  simp only [regulation, shift, Registry.best?_shift]
  cases b.matcher.best? affinity with
  | none => rfl
  | some e => rfl

theorem regulate_shift (affinity : Tag) {change : Registry α Nat → Handle → Option (Registry α Nat)}
    (hc : ∀ h, change (b.matcher.shift k) (h + k) = (change b.matcher h).map (·.shift k)) :
    (b.shift k).regulate affinity change = (b.regulate affinity change).shift k := by
  simp only [regulate, shift, Registry.matchBest?_shift]
  cases b.matcher.matchBest? affinity with
  | none => rfl
  | some h =>
    simp only [Option.map_some, hc]
    cases change b.matcher h with
    | none => rfl
    | some matcher => rfl

theorem fork_shift (limits : Limits α) (live : Nat) (affinity : Tag) (f : CallFrame α) :
    (b.shift k).fork limits live affinity f = (b.fork limits live affinity f).shift k := by
  simp only [fork, resolve?_shift]
  change (if limits.maxThreads ≤ live + b.pending.length then _ else _) = _
  split
  · rfl
  · cases b.resolve? affinity with
    | none => rfl
    | some callee => rfl

end Board

/-- No instruction of the machine depends on handles. -/
theorem perform_shift (k : Nat) (limits : Limits α) (body : List (Instruction X)) (op : Builtin)
    (args : Operands) (affinity : Tag) (f : CallFrame α) (b : Board α) :
    perform limits body op args affinity f (b.shift k) =
      ((perform limits body op args affinity f b).1,
        (perform limits body op args affinity f b).2.shift k) := by
  cases op with
  | adjRegulator =>
    exact congrArg (Prod.mk f) (b.regulate_shift k affinity
      fun h => b.matcher.adjustRegulator?_shift k h _ _)
  | setRegulator =>
    exact congrArg (Prod.mk f) (b.regulate_shift k affinity
      fun h => b.matcher.setRegulator?_shift k h _ _)
  | senseRegulator => simp only [perform, Board.regulation_shift]
  | _ => rfl

theorem Thread.step_shift (k : Nat) (host : Host α X σ) (limits : Limits α) (program : Program X)
    (live : Nat) (t : Thread α) (b : Board α) (s : σ) :
    t.step host limits program live (b.shift k) s =
      ((t.step host limits program live b s).1, (t.step host limits program live b s).2.1.shift k,
        (t.step host limits program live b s).2.2) := by
  cases t with
  | nil => rfl
  | cons f rest =>
    cases hf : program.function? f.function with
    | none => simp only [step, hf]
    | some function =>
      cases hi : function.body[f.pointer]? with
      | none => simp only [step, hf, hi]
      | some i =>
        obtain ⟨op, args, affinity⟩ := i
        simp only [step, hf, hi]
        cases op with
        | ext x => rfl
        | builtin op =>
          cases op with
          | call => simp only [call, Board.resolve?_shift]
          | fork => simp only [Board.fork_shift]
          | ret | terminate => rfl
          | _ => simp only [perform_shift]

/-- Neither does a pass. -/
theorem Board.pass_shift (k : Nat) (host : Host α X σ) (limits : Limits α) (program : Program X)
    (live : Nat) (threads : List (Thread α)) (b : Board α) (s : σ) :
    Board.pass host limits program live threads (b.shift k) s =
      ((Board.pass host limits program live threads b s).1,
        (Board.pass host limits program live threads b s).2.1.shift k,
        (Board.pass host limits program live threads b s).2.2) := by
  induction threads generalizing b s with
  | nil => rfl
  | cons t rest ih => simp only [Board.pass, t.step_shift, ih]

/-- The dispatch registry is filled function by function. -/
theorem Registry.foldl_insert_shift (k : Nat) (functions : List (Function X × Nat))
    (r : Registry α Nat) :
    functions.foldl (fun r f => (r.insert f.1.affinity f.2).2) (r.shift k) =
      (functions.foldl (fun r f => (r.insert f.1.affinity f.2).2) r).shift k := by
  induction functions generalizing r with
  | nil => rfl
  | cons f rest ih =>
    rw [List.foldl_cons, List.foldl_cons, insert_shift]
    exact ih _

namespace Machine

variable (k : Nat) (m : Machine α X)

theorem trigger_shift (affinity : Tag) (payload : Memory α) :
    (m.shift k).trigger affinity payload = (m.trigger affinity payload).shift k := by
  unfold trigger trigger?
  simp only [shift, Board.resolve?_shift]
  cases m.board.resolve? affinity with
  | none => rfl
  | some callee =>
    by_cases hroom : m.limits.maxThreads ≤ m.threads.length + m.board.pending.length
    · simp [Board.shift, hroom]
    · simp [Board.shift, hroom]

theorem handle_shift (events : List (Event α)) :
    (m.shift k).handle events = (m.handle events).shift k := by
  induction events generalizing m with
  | nil => rfl
  | cons e rest ih =>
    change ((m.shift k).trigger e.affinity e.payload).handle rest = _
    rw [trigger_shift, ih]
    rfl

theorem load_shift (program : Program X) : (m.shift k).load program = (m.load program).shift k := by
  simp only [load, setMatcher, index, shift, Board.shift]
  rw [← Registry.foldl_insert_shift]
  rfl

/-- A machine under later handles goes through its pass in the same way. -/
theorem process_shift (host : Host α X σ) (s : σ) :
    (m.shift k).process host s = ((m.process host s).1.shift k, (m.process host s).2) := by
  have hdrain : (m.shift k).drain = m.drain.shift k := handle_shift k { m with events := [] } m.events
  rw [process, process, hdrain]
  simp only [advance, shift, Board.pass_shift]
  rfl

end Machine

/-! ## States of hosts -/

section Hosts

variable {host : Host α X σ} {twin : Host α X τ} {program : Program X} {R : σ → τ → Prop}

/-- The hosts write the same for a program, and their states go on together. -/
def Host.Twins (host : Host α X σ) (twin : Host α X τ) (program : Program X) (R : σ → τ → Prop) :
    Prop :=
  ∀ x site w s t, site.program = program → R s t →
    (twin.execute x site w t).1 = (host.execute x site w s).1 ∧
      R (host.execute x site w s).2 (twin.execute x site w t).2

theorem Thread.step_twins (h : host.Twins twin program R) (limits : Limits α) (live : Nat)
    (thread : Thread α) (b : Board α) {s : σ} {t : τ} (hst : R s t) :
    (thread.step twin limits program live b t).1 = (thread.step host limits program live b s).1 ∧
    (thread.step twin limits program live b t).2.1 =
      (thread.step host limits program live b s).2.1 ∧
    R (thread.step host limits program live b s).2.2
      (thread.step twin limits program live b t).2.2 := by
  cases thread with
  | nil => exact ⟨rfl, rfl, hst⟩
  | cons f rest =>
    cases hf : program.function? f.function with
    | none =>
      simp only [step, hf]
      exact ⟨trivial, trivial, hst⟩
    | some function =>
      cases hi : function.body[f.pointer]? with
      | none =>
        simp only [step, hf, hi]
        exact ⟨trivial, trivial, hst⟩
      | some i =>
        obtain ⟨op, args, affinity⟩ := i
        simp only [step, hf, hi]
        cases op with
        | ext x =>
          obtain ⟨hw, hR⟩ := h x ⟨⟨.ext x, args, affinity⟩, { f with pointer := f.pointer + 1 }, program⟩
            (.of { f with pointer := f.pointer + 1 } b) s t rfl hst
          simp only [hw]
          exact ⟨trivial, trivial, hR⟩
        | builtin op =>
          cases op with
          | _ => exact ⟨rfl, rfl, hst⟩

/-- Twin hosts make the same of the threads, and their states go on together. -/
theorem Board.pass_twins (h : host.Twins twin program R) (limits : Limits α) (live : Nat)
    (threads : List (Thread α)) (b : Board α) {s : σ} {t : τ} (hst : R s t) :
    (Board.pass twin limits program live threads b t).1 =
      (Board.pass host limits program live threads b s).1 ∧
    (Board.pass twin limits program live threads b t).2.1 =
      (Board.pass host limits program live threads b s).2.1 ∧
    R (Board.pass host limits program live threads b s).2.2
      (Board.pass twin limits program live threads b t).2.2 := by
  induction threads generalizing b s t with
  | nil => exact ⟨rfl, rfl, hst⟩
  | cons thread rest ih =>
    obtain ⟨hthread, hboard, hR⟩ := thread.step_twins h limits live b hst
    obtain ⟨hrest, hboard', hR'⟩ := ih (thread.step host limits program live b s).2.1 hR
    simp only [Board.pass, hthread, hboard]
    exact ⟨congrArg _ hrest, hboard', hR'⟩

/-- Twin hosts make the same of a machine. -/
theorem Machine.process_twins {m : Machine α X} (h : host.Twins twin m.program R) {s : σ} {t : τ}
    (hst : R s t) :
    (m.process twin t).1 = (m.process host s).1 ∧ R (m.process host s).2 (m.process twin t).2 := by
  have hp : m.drain.program = m.program := program_handle { m with events := [] } m.events
  have hd : host.Twins twin m.drain.program R := hp.symm ▸ h
  obtain ⟨hthreads, hboard, hR⟩ := Board.pass_twins hd m.drain.limits m.drain.threads.length
    m.drain.threads m.drain.board hst
  simp only [process, advance, hthreads, hboard]
  exact ⟨trivial, hR⟩

end Hosts

/-! ## Settings -/

/-- What a machine was built with, and nothing it goes through changes. -/
structure Machine.BuiltWith (limits : Limits α) (threshold : α) (m : Machine α X) : Prop where
  limits_eq : m.limits = limits
  threshold_eq : m.board.matcher.threshold = threshold

section

variable {limits : Limits α} {threshold : α}

omit [Scalar α] in
theorem Registry.threshold_modify? {V : Type} {r s : Registry α V} {h : Handle}
    {f : Entry α V → Entry α V} (hs : r.modify? h f = some s) : s.threshold = r.threshold := by
  simp only [modify?, Option.ite_none_right_eq_some, Option.some.injEq] at hs
  rw [← hs.2]

theorem Registry.threshold_foldl_insert (functions : List (Function X × Nat)) (r : Registry α Nat) :
    (functions.foldl (fun r f => (r.insert f.1.affinity f.2).2) r).threshold = r.threshold := by
  induction functions generalizing r with
  | nil => rfl
  | cons f rest ih => exact ih _

theorem Board.threshold_regulate (b : Board α) (affinity : Tag)
    {change : Registry α Nat → Handle → Option (Registry α Nat)}
    (hc : ∀ r h s, change r h = some s → s.threshold = r.threshold) :
    (b.regulate affinity change).matcher.threshold = b.matcher.threshold := by
  unfold Board.regulate
  cases b.matcher.matchBest? affinity with
  | none => rfl
  | some h =>
    change ((change b.matcher h).getD b.matcher).threshold = _
    cases hs : change b.matcher h with
    | none => rfl
    | some s => exact hc _ _ _ hs

theorem threshold_perform (limits : Limits α) (body : List (Instruction X)) (op : Builtin)
    (args : Operands) (affinity : Tag) (f : CallFrame α) (b : Board α) :
    (perform limits body op args affinity f b).2.matcher.threshold = b.matcher.threshold := by
  cases op with
  | adjRegulator | setRegulator =>
    exact b.threshold_regulate affinity fun r h s hs => Registry.threshold_modify? hs
  | _ => rfl

theorem Thread.threshold_step (host : Host α X σ) (limits : Limits α) (program : Program X)
    (live : Nat) (t : Thread α) (b : Board α) (s : σ) :
    (t.step host limits program live b s).2.1.matcher.threshold = b.matcher.threshold := by
  unfold Thread.step
  split
  · rfl
  · split
    · rfl
    · split
      · rfl
      · split
        any_goals rfl
        · unfold Board.fork
          split
          · rfl
          · split
            · rfl
            · rfl
        · exact threshold_perform _ _ _ _ _ _ _

namespace Machine

variable {m : Machine α X}

theorem BuiltWith.trigger (h : m.BuiltWith limits threshold) (affinity : Tag) (payload : Memory α) :
    (m.trigger affinity payload).BuiltWith limits threshold := by
  rcases m.trigger_cases affinity payload with he | ⟨callee, -, -, he⟩
  · rw [he]
    exact h
  · rw [he]
    exact ⟨h.limits_eq, h.threshold_eq⟩

theorem BuiltWith.handle (h : m.BuiltWith limits threshold) (events : List (Event α)) :
    (m.handle events).BuiltWith limits threshold :=
  handle_induction (I := BuiltWith limits threshold) (fun _ affinity payload h => h.trigger affinity payload)
    m events h

theorem BuiltWith.process (h : m.BuiltWith limits threshold) (host : Host α X σ) (s : σ) :
    (m.process host s).1.BuiltWith limits threshold := by
  obtain ⟨hlimits, hthreshold⟩ :=
    BuiltWith.handle (m := { m with events := [] }) ⟨h.limits_eq, h.threshold_eq⟩ m.events
  have hpass := Board.pass_induction host m.drain.limits m.drain.program m.drain.threads.length
    (P := fun _ => True) (I := fun b _ => b.matcher.threshold = threshold)
    (fun t b s _ hb => ⟨trivial, (t.threshold_step host _ _ _ b s).trans hb⟩)
    m.drain.threads m.drain.board s (fun _ _ => trivial) hthreshold
  exact ⟨hlimits, hpass.2⟩

theorem BuiltWith.load (h : m.BuiltWith limits threshold) (program : Program X) :
    (m.load program).BuiltWith limits threshold :=
  ⟨h.limits_eq, (Registry.threshold_foldl_insert _ _).trans h.threshold_eq⟩

end Machine

end

end Vivarium
