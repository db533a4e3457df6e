import Vivarium.Proofs.Machine.Blocks
/-!
# Capacity

Neither bursts of events nor forks of many threads in one pass nor recursive calls carry a machine
beyond its limits. Between two calls of its owner it has no more threads than it may have, none is
dead or deeper than a call may make it, and no forked thread is left waiting.
-/
namespace Vivarium

variable {α X σ : Type} [Scalar α]

/-- Every function that a thread is in belongs to the program. -/
def Thread.Within (program : Program X) (t : Thread α) : Prop :=
  ∀ f ∈ t, ∃ function, program.function? f.function = some function

def Thread.Fits (limits : Limits α) (t : Thread α) : Prop :=
  t ≠ [] ∧ t.length ≤ max 1 limits.maxCallDepth

namespace Thread

omit [Scalar α] in
theorem length_ret (f : CallFrame α) (rest : Thread α) : (ret (f :: rest)).length = rest.length := by
  cases rest with
  | nil => rfl
  | cons caller rest => rfl

omit [Scalar α] in
theorem fits_enter (limits : Limits α) (callee : Nat) (inputs : Memory α) :
    Fits limits [.enter callee inputs] := by
  constructor
  · exact List.cons_ne_nil _ _
  · exact Nat.le_max_left _ _

/-- Calls stop at the limit, and nothing else makes a thread deeper. -/
theorem length_le_of_moves {limits : Limits α} {program : Program X} {b : Board α}
    {t u : Thread α} (h : t.length ≤ max 1 limits.maxCallDepth)
    (hm : Moves limits program b t u) : u.length ≤ max 1 limits.maxCallDepth := by
  cases hm with
  | gone => exact Nat.zero_le _
  | flow _ _ => exact h
  | call _ _ hdepth _ =>
    simp only [List.length_cons]
    omega
  | ret =>
    rw [length_ret]
    simp only [List.length_cons] at h
    omega

omit [Scalar α] in
theorem Within.ret {program : Program X} {t : Thread α} (h : Within program t) :
    Within program (Thread.ret t) := by
  intro f hf
  match t, hf with
  | done :: caller :: rest, hf =>
    cases hf with
    | head => exact h caller (List.mem_cons_of_mem done List.mem_cons_self)
    | tail _ hf => exact h f (List.mem_cons_of_mem done (List.mem_cons_of_mem caller hf))

/-- Calls lead to functions of the program, and nothing else leads to another function. -/
theorem Within.moves {limits : Limits α} {program : Program X} {b : Board α} {t u : Thread α}
    (h : Within program t) (hb : b.matcher.Dispatches program)
    (hm : Moves limits program b t u) : Within program u := by
  have flow {f g : CallFrame α} {rest : Thread α} {body : List (Instruction X)}
      (h : Within program (f :: rest)) (hfg : f.Flows body g) : Within program (g :: rest) := by
    intro f' hf'
    cases hf' with
    | head =>
      rw [hfg.1]
      exact h f List.mem_cons_self
    | tail _ hf' => exact h f' (List.mem_cons_of_mem f hf')
  cases hm with
  | gone => exact fun f hf => by cases hf
  | flow _ hfg => exact flow h hfg
  | call _ hfg _ hr =>
    intro f' hf'
    cases hf' with
    | head => exact hb.resolve hr
    | tail _ hf' => exact flow h hfg f' hf'
  | ret => exact h.ret

end Thread

/-! ## Boards -/

/-- The threads set aside during a pass may run: they enter functions of the program. -/
structure Board.Forks (limits : Limits α) (program : Program X) (b : Board α) : Prop where
  dispatches : b.matcher.Dispatches program
  fits : ∀ t ∈ b.pending, t.Fits limits
  within : ∀ t ∈ b.pending, t.Within program

theorem Board.Forks.follows {limits : Limits α} {live : Nat} {program : Program X}
    {b c : Board α} (h : b.Forks limits program) (hf : b.Follows limits live c) :
    c.Forks limits program := by
  rcases hf.pending with he | ⟨affinity, callee, inputs, hr, -, he⟩
  · constructor
    · exact h.dispatches.akin hf.akin
    · rw [he]
      exact h.fits
    · rw [he]
      exact h.within
  · constructor
    · exact h.dispatches.akin hf.akin
    · intro t ht
      rw [he] at ht
      cases List.mem_append.1 ht with
      | inl ht => exact h.fits t ht
      | inr ht =>
        rw [List.mem_singleton.1 ht]
        exact Thread.fits_enter limits callee inputs
    · intro t ht
      rw [he] at ht
      cases List.mem_append.1 ht with
      | inl ht => exact h.within t ht
      | inr ht =>
        rw [List.mem_singleton.1 ht]
        intro f hf'
        rw [List.mem_singleton.1 hf']
        exact h.dispatches.resolve hr

/-- A pass returns every thread, those that have ended as empty ones. -/
theorem Board.length_pass (host : Host α X σ) (limits : Limits α) (program : Program X)
    (live : Nat) (threads : List (Thread α)) (b : Board α) (s : σ) :
    (Board.pass host limits program live threads b s).1.length = threads.length := by
  induction threads generalizing b s with
  | nil => rfl
  | cons t rest ih => simp only [Board.pass, List.length_cons, ih]

/-! ## Machines -/

namespace Machine

/-- The machines that calls of the owner lead to, in any order and with any host. A program is loaded
after a reset. The index tells whether all running threads still have the program they were started
in: unloading it under running threads loses it for them, and a reset ends them all. -/
inductive Operated (limits : Limits α) : Bool → Machine α X → Prop where
  | new (rng : Generator) : Operated limits true (.new rng limits)
  | load {kept : Bool} {m : Machine α X} (program : Program X) : Operated limits kept m →
      Operated limits true (m.reset.load program)
  | trigger {kept : Bool} {m : Machine α X} (affinity : Tag) (payload : Memory α) :
      Operated limits kept m → Operated limits kept (m.trigger affinity payload)
  | enqueue {kept : Bool} {m : Machine α X} (events : List (Event α)) :
      Operated limits kept m → Operated limits kept (m.enqueue events)
  | process {kept : Bool} {m : Machine α X} {σ : Type} (host : Host α X σ) (s : σ) :
      Operated limits kept m → Operated limits kept (m.process host s).1
  | reset {kept : Bool} {m : Machine α X} : Operated limits kept m → Operated limits true m.reset
  | unload {kept : Bool} {m : Machine α X} : Operated limits kept m →
      Operated limits (kept && m.threads.isEmpty) m.unload

/-- A machine within its limits. -/
structure Bounded (limits : Limits α) (kept : Bool) (m : Machine α X) : Prop where
  coherent : m.Coherent
  limits_eq : m.limits = limits
  length_le : m.threads.length ≤ limits.maxThreads
  fits : ∀ t ∈ m.threads, t.Fits limits
  within : kept = true → ∀ t ∈ m.threads, t.Within m.program

variable {limits : Limits α} {kept : Bool} {m : Machine α X}

omit [Scalar α] in
/-- An idle machine is within its limits. -/
theorem Bounded.of_idle (hc : m.Coherent) (hl : m.limits = limits) (ht : m.threads = [])
    (kept : Bool) : m.Bounded limits kept := by
  constructor
  · exact hc
  · exact hl
  · simp [ht]
  · simp [ht]
  · simp [ht]

theorem coherent_new (rng : Generator) (limits : Limits α) :
    (Machine.new rng limits : Machine α X).Coherent := by
  constructor
  · intro e he
    cases he
  · rfl

theorem Coherent.load (h : m.Coherent) (program : Program X) : (m.load program).Coherent :=
  ⟨dispatches_index _ program, h.pending⟩

theorem Coherent.reset (h : m.Coherent) : m.reset.Coherent :=
  ⟨h.dispatches.akin (Registry.akin_resetRegulators _), rfl⟩

/-- A trigger starts a thread only where there is room for it. -/
theorem Bounded.trigger (h : m.Bounded limits kept) (affinity : Tag) (payload : Memory α) :
    (m.trigger affinity payload).Bounded limits kept := by
  rcases m.trigger_cases affinity payload with he | ⟨callee, hr, hroom, he⟩
  · rw [he]
    exact h
  · have hc := h.coherent.trigger affinity payload
    rw [he] at hc ⊢
    constructor
    · exact hc
    · exact h.limits_eq
    · rw [h.coherent.pending, h.limits_eq, List.length_nil] at hroom
      simp only [List.length_append, List.length_singleton]
      omega
    · intro t ht
      cases List.mem_append.1 ht with
      | inl ht => exact h.fits t ht
      | inr ht =>
        rw [List.mem_singleton.1 ht]
        exact Thread.fits_enter limits callee payload
    · intro hk t ht
      cases List.mem_append.1 ht with
      | inl ht => exact h.within hk t ht
      | inr ht =>
        rw [List.mem_singleton.1 ht]
        intro f hf
        rw [List.mem_singleton.1 hf]
        exact h.coherent.dispatches.resolve hr

/-- Events start threads only while there is room. -/
theorem Bounded.drain (h : m.Bounded limits kept) : m.drain.Bounded limits kept :=
  handle_induction (fun _ affinity payload h => h.trigger affinity payload) _ _
    ⟨⟨h.coherent.dispatches, h.coherent.pending⟩, h.limits_eq, h.length_le, h.fits, h.within⟩

/-- The forked threads get no more than the room that the living leave. -/
theorem Bounded.advance (h : m.Bounded limits kept) (host : Host α X σ) (s : σ) :
    (m.advance host s).1.Bounded limits kept := by
  obtain rfl := h.limits_eq
  have hlength := Board.length_pass host m.limits m.program m.threads.length m.threads m.board s
  have hpass := Board.pass_induction host m.limits m.program m.threads.length
    (P := fun t => t.length ≤ max 1 m.limits.maxCallDepth ∧ (kept = true → t.Within m.program))
    (I := fun b _ => b.Forks m.limits m.program)
    (fun t b s ht hb => by
      obtain ⟨hm, hf⟩ := Thread.moves_step host m.limits m.program m.threads.length t b s
      exact ⟨⟨Thread.length_le_of_moves ht.1 hm, fun hk => (ht.2 hk).moves hb.dispatches hm⟩,
        hb.follows hf⟩)
    m.threads m.board s (fun t ht => ⟨(h.fits t ht).2, fun hk => h.within hk t ht⟩)
    ⟨h.coherent.dispatches, by simp [h.coherent.pending], by simp [h.coherent.pending]⟩
  obtain ⟨hold, hnew⟩ := hpass
  constructor
  · exact h.coherent.advance host s
  · rfl
  · have halive := List.length_filter_le (!List.isEmpty ·)
      (Board.pass host m.limits m.program m.threads.length m.threads m.board s).1
    rw [hlength] at halive
    have hroom := Nat.le_trans halive h.length_le
    change (List.filter _ _ ++ List.take _ _).length ≤ _
    rw [List.length_append, List.length_take]
    exact Nat.le_trans (Nat.add_le_add_left (Nat.min_le_left _ _) _)
      (Nat.le_of_eq (Nat.add_sub_cancel' hroom))
  · intro t ht
    cases List.mem_append.1 ht with
    | inl ht =>
      obtain ⟨ht, halive⟩ := List.mem_filter.1 ht
      exact ⟨by simpa using halive, (hold t ht).1⟩
    | inr ht => exact hnew.fits t (List.mem_of_mem_take ht)
  · intro hk t ht
    cases List.mem_append.1 ht with
    | inl ht => exact (hold t (List.mem_filter.1 ht).1).2 hk
    | inr ht => exact hnew.within t (List.mem_of_mem_take ht)

/-- Whatever the owner does, the machine stays within its limits. -/
theorem Operated.bounded (h : m.Operated limits kept) : m.Bounded limits kept := by
  induction h with
  | new rng => exact .of_idle (coherent_new rng limits) rfl rfl _
  | load program _ ih => exact .of_idle (ih.coherent.reset.load program) ih.limits_eq rfl _
  | trigger affinity payload _ ih => exact ih.trigger affinity payload
  | enqueue events _ ih =>
    exact ⟨⟨ih.coherent.dispatches, ih.coherent.pending⟩, ih.limits_eq, ih.length_le, ih.fits,
      ih.within⟩
  | process host s _ ih => exact ih.drain.advance host s
  | reset _ ih => exact .of_idle ih.coherent.reset ih.limits_eq rfl _
  | unload _ ih =>
    constructor
    · exact ih.coherent.load .none
    · exact ih.limits_eq
    · exact ih.length_le
    · exact ih.fits
    · intro hk t ht
      have hidle := List.isEmpty_iff.1 (Bool.and_eq_true_iff.1 hk).2
      exact absurd ht (hidle ▸ List.not_mem_nil)

/-- Between calls no machine is beyond its limits: it has no more threads than it may have, no forked
thread is left waiting, and its threads are alive and not too deep. As long as the program was not
unloaded under running threads, they run functions of the loaded program only. -/
theorem capacity_kept (h : m.Operated limits kept) :
    m.threadCount ≤ limits.maxThreads ∧ m.board.pending = [] ∧
    (∀ t ∈ m.threads, t ≠ [] ∧ t.length ≤ max 1 limits.maxCallDepth) ∧
    (kept = true → ∀ t ∈ m.threads, ∀ f ∈ t,
      ∃ function, m.program.function? f.function = some function) := by
  have hb := h.bounded
  exact ⟨hb.length_le, hb.coherent.pending, hb.fits, hb.within⟩

/-- Every thread of this program forks and then calls, over and over. -/
def swarm : Program FrameOp :=
  ⟨[⟨.new 0, [.bare (.builtin .fork), .bare (.builtin .call)]⟩]⟩

def swarmLimits : Limits Rat := ⟨3, 2, 0, 0⟩

/-- Two threads of the program have run for two passes, and four events wait. -/
def swarming : Machine Rat FrameOp :=
  let m := (((Machine.new (.ofSeed 0) swarmLimits).reset.load swarm).trigger (.new 0) .empty).trigger
    (.new 0) .empty
  ((m.process idle ()).1.process idle ()).1.enqueue (List.replicate 4 ⟨.new 0, .empty⟩)

/-- In the next pass the forks and the events would make more threads than there may be, and in the
one after it calls would go too deep; the machine stays at its limits. -/
theorem capacity_swarming :
    let m := ((swarming.process idle ()).1.process idle ()).1
    m.Operated swarmLimits true ∧ m.threadCount = 3 ∧ (∃ t ∈ m.threads, t.length = 2) ∧
      m.threadCount ≤ 3 ∧ m.board.pending = [] ∧
      (∀ t ∈ m.threads, t ≠ [] ∧ t.length ≤ max 1 2) ∧
      ∀ t ∈ m.threads, ∀ f ∈ t, ∃ function, m.program.function? f.function = some function := by
  intro m
  have hm : m.Operated swarmLimits true :=
    .process idle () (.process idle () (.enqueue _ (.process idle () (.process idle ()
      (.trigger _ _ (.trigger _ _ (.load swarm (.new _))))))))
  obtain ⟨hcount, hpending, hfits, hwithin⟩ := capacity_kept hm
  exact ⟨hm, by decide +kernel, by decide +kernel, hcount, hpending, hfits, hwithin rfl⟩

end Machine

end Vivarium
