import Vivarium.Proofs.Machine.Flow
/-!
# Runs of a machine

A run starts with a new machine. Its owner triggers and queues events, lets it process them, tunes
its regulators, resets it, and loads a program whenever no thread is left of the previous one.
The threads of a reachable machine can only enter functions that its program has.
-/
namespace Vivarium

variable {α X σ : Type} [Scalar α]

/-- Every instruction of the program is of a permitted kind. -/
def Program.Only (permits : Op X → Bool) (p : Program X) : Prop :=
  ∀ function ∈ p.functions, ∀ i ∈ function.body, permits i.op = true

instance (permits : Op X → Bool) (p : Program X) : Decidable (p.Only permits) :=
  inferInstanceAs (Decidable (∀ function ∈ p.functions, ∀ i ∈ function.body, permits i.op = true))

theorem Program.Only.permits {permits : Op X → Bool} {p : Program X} (h : p.Only permits)
    {n k : Nat} {function : Function X} {i : Instruction X} (hf : p.function? n = some function)
    (hi : function.body[k]? = some i) : permits i.op = true :=
  h function (List.mem_of_getElem? hf) i (List.mem_of_getElem? hi)

namespace Machine

/-- A pass drains the queue and then advances every thread. The two are rows of their own, so that
the machine whose threads are about to step is reachable as well. -/
inductive Reachable : Machine α X → Prop where
  | new (rng : Generator) (limits : Limits α) : Reachable (.new rng limits)
  | load {m : Machine α X} (program : Program X) : Reachable m → m.threads = [] →
      Reachable (m.load program)
  | trigger {m : Machine α X} (affinity : Tag) (payload : Memory α) : Reachable m →
      Reachable (m.trigger affinity payload)
  | enqueue {m : Machine α X} (events : List (Event α)) : Reachable m →
      Reachable (m.enqueue events)
  | drain {m : Machine α X} : Reachable m → Reachable m.drain
  | advance {m : Machine α X} {σ : Type} (host : Host α X σ) (s : σ) : Reachable m →
      Reachable (m.advance host s).1
  | reset {m : Machine α X} : Reachable m → Reachable m.reset
  | tune {m : Machine α X} (matcher : Registry α Nat) : Reachable m →
      m.board.matcher.Akin matcher → Reachable (m.setMatcher matcher)
  | reseed {m : Machine α X} (rng : Generator) : Reachable m →
      Reachable { m with board := { m.board with rng } }

theorem Reachable.process {m : Machine α X} (h : m.Reachable) (host : Host α X σ) (s : σ) :
    (m.process host s).1.Reachable := h.drain.advance host s

/-- A host that is called on in a pass, and the state it is in. -/
structure Visit (α X : Type) where
  {σ : Type}
  host : Host α X σ
  state : σ

/-- The machine after passes in a row, one for each visit, while its owner leaves it alone. -/
def after (m : Machine α X) (visits : List (Visit α X)) : Machine α X :=
  visits.foldl (fun m v => (m.process v.host v.state).1) m

theorem after_cons (m : Machine α X) (v : Visit α X) (visits : List (Visit α X)) :
    m.after (v :: visits) = (m.process v.host v.state).1.after visits := rfl

end Machine

/-! ## Passes -/

/-- What every step keeps, of the thread that takes it and of the board and the host, a pass
keeps. -/
theorem Board.pass_induction (host : Host α X σ) (limits : Limits α) (program : Program X)
    (live : Nat) {P : Thread α → Prop} {I : Board α → σ → Prop}
    (hstep : ∀ t b s, P t → I b s → P (t.step host limits program live b s).1 ∧
      I (t.step host limits program live b s).2.1 (t.step host limits program live b s).2.2)
    (threads : List (Thread α)) (b : Board α) (s : σ) (ht : ∀ t ∈ threads, P t) (hb : I b s) :
    (∀ t ∈ (Board.pass host limits program live threads b s).1, P t) ∧
      I (Board.pass host limits program live threads b s).2.1
        (Board.pass host limits program live threads b s).2.2 := by
  induction threads generalizing b s with
  | nil => exact ⟨ht, hb⟩
  | cons t rest ih =>
    obtain ⟨h₁, h₂⟩ := hstep t b s (ht t List.mem_cons_self) hb
    obtain ⟨h₃, h₄⟩ := ih _ _ (fun u hu => ht u (List.mem_cons_of_mem t hu)) h₂
    simp only [Board.pass]
    constructor
    · intro u hu
      cases hu with
      | head => exact h₁
      | tail _ hu => exact h₃ u hu
    · exact h₄

/-! ## Hosts -/

section Hosts

variable {host : Host α X σ} {program : Program X} {I : σ → Prop}

/-- The state of the host changes only where an instruction is carried out. -/
theorem Thread.host_step
    (hex : ∀ x site w s, site.program = program → I s → I (host.execute x site w s).2)
    (limits : Limits α) (live : Nat) (t : Thread α) (b : Board α) (s : σ) (hs : I s) :
    I (t.step host limits program live b s).2.2 := by
  unfold Thread.step
  split
  · exact hs
  · split
    · exact hs
    · split
      · exact hs
      · split
        any_goals exact hs
        exact hex _ _ _ _ rfl hs

namespace Machine

theorem program_trigger (m : Machine α X) (affinity : Tag) (payload : Memory α) :
    (m.trigger affinity payload).program = m.program := by
  unfold trigger trigger?
  split
  · rfl
  · split <;> rfl

theorem program_handle (m : Machine α X) (events : List (Event α)) :
    (m.handle events).program = m.program := by
  induction events generalizing m with
  | nil => rfl
  | cons e rest ih => exact (ih _).trans (m.program_trigger e.affinity e.payload)

/-- What every instruction keeps of the state of the host, a pass keeps. -/
theorem host_process (host : Host α X σ) {m : Machine α X}
    (hex : ∀ x site w s, site.program = m.program → I s → I (host.execute x site w s).2)
    (s : σ) (hs : I s) : I (m.process host s).2 := by
  have hp : m.drain.program = m.program := program_handle { m with events := [] } m.events
  exact (Board.pass_induction host m.drain.limits m.drain.program m.drain.threads.length
    (P := fun _ => True) (I := fun _ => I)
    (fun t b s _ hs => ⟨trivial, t.host_step (hp ▸ hex) _ _ b s hs⟩)
    m.drain.threads m.drain.board s (fun _ _ => trivial) hs).2

end Machine

end Hosts

/-! ## Dispatch -/

/-- Every function that a registry dispatches to is in the program. -/
def Registry.Dispatches (r : Registry α Nat) (program : Program X) : Prop :=
  ∀ e ∈ r.entries, ∃ function, program.function? e.value = some function

namespace Registry

omit [Scalar α] in
theorem Dispatches.akin {r s : Registry α Nat} {program : Program X} (h : r.Dispatches program)
    (hrs : r.Akin s) : s.Dispatches program := by
  intro e he
  obtain ⟨d, hd, hv⟩ := hrs.exists_value he
  rw [← hv]
  exact h d hd

/-- A tag that resolves leads to a function of the program. -/
theorem Dispatches.resolve {b : Board α} {program : Program X} (h : b.matcher.Dispatches program)
    {affinity : Tag} {callee : Nat} (hr : b.resolve? affinity = some callee) :
    ∃ function, program.function? callee = some function := by
  obtain ⟨e, he, hv⟩ := Board.mem_of_resolve?_eq_some hr
  rw [← hv]
  exact h e he

theorem akin_resetRegulators (r : Registry α Nat) : r.Akin r.resetRegulators :=
  akin_map r _ fun _ => rfl

theorem mem_foldl_insert {V : Type} {P : V → Prop} (items : List (Function X × V))
    (r : Registry α V) (hr : ∀ e ∈ r.entries, P e.value) (hi : ∀ p ∈ items, P p.2) :
    ∀ e ∈ (items.foldl (fun r p => (r.insert p.1.affinity p.2).2) r).entries, P e.value := by
  induction items generalizing r with
  | nil => exact hr
  | cons p rest ih =>
    refine ih _ ?_ fun q hq => hi q (List.mem_cons_of_mem p hq)
    intro e he
    cases List.mem_append.1 he with
    | inl he => exact hr e he
    | inr he =>
      rw [List.mem_singleton.1 he]
      exact hi p List.mem_cons_self

end Registry

namespace Machine

/-- The registry of a program dispatches to the functions of the program. -/
theorem dispatches_index (matcher : Registry α Nat) (program : Program X) :
    (index matcher program).Dispatches program := by
  refine Registry.mem_foldl_insert (P := fun i => ∃ function, program.function? i = some function)
    program.functions.zipIdx matcher.clear ?_ ?_
  · simp [Registry.clear]
  · intro p hp
    exact ⟨p.1, List.mem_zipIdx_iff_getElem?.1 hp⟩

/-- What the states between calls have in common. -/
structure Coherent (m : Machine α X) : Prop where
  dispatches : m.board.matcher.Dispatches m.program
  pending : m.board.pending = []

/-- A trigger adds at most one thread, which is about to enter a function of the program. -/
theorem trigger_cases (m : Machine α X) (affinity : Tag) (payload : Memory α) :
    m.trigger affinity payload = m ∨ ∃ callee, m.board.resolve? affinity = some callee ∧
      m.threads.length + m.board.pending.length < m.limits.maxThreads ∧
      m.trigger affinity payload = { m with threads := m.threads ++ [[.enter callee payload]] } := by
  unfold trigger trigger?
  cases hr : m.board.resolve? affinity with
  | none => exact .inl rfl
  | some callee =>
    by_cases hroom : m.limits.maxThreads ≤ m.threads.length + m.board.pending.length
    · simp [hroom]
    · exact .inr ⟨callee, rfl, by omega, by simp [hroom]⟩

/-- What every trigger keeps, the handling of any events keeps. -/
theorem handle_induction {I : Machine α X → Prop}
    (hI : ∀ m affinity payload, I m → I (m.trigger affinity payload)) (m : Machine α X)
    (events : List (Event α)) (h : I m) : I (m.handle events) := by
  induction events generalizing m with
  | nil => exact h
  | cons e rest ih => exact ih _ (hI m e.affinity e.payload h)

/-- Events that are handled leave their mark on the threads only. -/
theorem handle_eq_withThreads (m : Machine α X) (events : List (Event α)) :
    m.handle events = { m with threads := (m.handle events).threads } := by
  refine handle_induction (I := fun u => u = { m with threads := u.threads }) ?_ m events rfl
  intro u affinity payload hu
  rcases u.trigger_cases affinity payload with he | ⟨callee, -, -, he⟩
  · rwa [he]
  · rw [he, hu]

theorem handle_append (m : Machine α X) (events more : List (Event α)) :
    m.handle (events ++ more) = (m.handle events).handle more := List.foldl_append

theorem board_handle (m : Machine α X) (events : List (Event α)) : (m.handle events).board = m.board := by
  rw [handle_eq_withThreads]

theorem events_handle (m : Machine α X) (events : List (Event α)) :
    (m.handle events).events = m.events := by
  rw [handle_eq_withThreads]

theorem limits_handle (m : Machine α X) (events : List (Event α)) :
    (m.handle events).limits = m.limits := by
  rw [handle_eq_withThreads]

theorem Coherent.trigger {m : Machine α X} (h : m.Coherent) (affinity : Tag)
    (payload : Memory α) : (m.trigger affinity payload).Coherent := by
  rcases m.trigger_cases affinity payload with he | ⟨callee, -, -, he⟩
  · rw [he]
    exact h
  · rw [he]
    exact ⟨h.dispatches, h.pending⟩

theorem Coherent.drain {m : Machine α X} (h : m.Coherent) : m.drain.Coherent :=
  handle_induction (fun _ affinity payload h => h.trigger affinity payload) _ _
    ⟨h.dispatches, h.pending⟩

/-- Stepping the threads keeps the machine coherent. -/
theorem Coherent.advance {m : Machine α X} (h : m.Coherent) (host : Host α X σ) (s : σ) :
    (m.advance host s).1.Coherent := by
  have hp := Board.pass_induction host m.limits m.program m.threads.length (P := fun _ => True)
    (I := fun b _ => b.matcher.Dispatches m.program)
    (fun t b s _ hb => ⟨trivial, hb.akin (Thread.moves_step host _ _ _ t b s).2.akin⟩)
    m.threads m.board s (fun _ _ => trivial) h.dispatches
  exact ⟨hp.2, rfl⟩

/-- Every machine that can be reached is coherent. -/
theorem Reachable.coherent {m : Machine α X} (h : m.Reachable) : m.Coherent := by
  induction h with
  | new rng limits => exact ⟨by simp [Machine.new, Registry.empty, Registry.Dispatches], rfl⟩
  | load program _ _ ih => exact ⟨dispatches_index _ program, ih.pending⟩
  | trigger affinity payload _ ih => exact ih.trigger affinity payload
  | enqueue events _ ih => exact ⟨ih.dispatches, ih.pending⟩
  | drain _ ih => exact ih.drain
  | advance host s _ ih => exact ih.advance host s
  | reset _ ih => exact ⟨ih.dispatches.akin (Registry.akin_resetRegulators _), rfl⟩
  | tune matcher _ hm ih => exact ⟨ih.dispatches.akin hm, ih.pending⟩
  | reseed rng _ ih => exact ⟨ih.dispatches, ih.pending⟩

end Machine

end Vivarium
