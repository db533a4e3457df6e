import Mathlib.Algebra.Order.BigOperators.Group.List
import Mathlib.Algebra.Order.Group.Nat
import Mathlib.Algebra.Ring.Nat
import Vivarium.Proofs.Machine.Schedule
/-!
# Programs without loops

Nothing starts a thread in a program that does not fork, and a thread of one without loops comes to
its end although its functions may call themselves. A frame's life is an upper bound on the steps it has
left; every move of a thread lowers the sum of the lives of its frames, where the deeper of two frames
counts for less than one step of the frame that called it. Main statement: from some number of passes
on no thread is left, whatever the hosts do.
-/
namespace Vivarium

variable {α X σ : Type}

/-- The operation begins neither a loop nor a thread. -/
def Op.isStraight : Op X → Bool
  | .builtin .whileBlock | .builtin .countdown | .builtin .fork => false
  | _ => true

theorem Op.loops_eq_false {op : Op X} (h : op.isStraight = true) : op.loops = false := by
  cases op with
  | ext x => rfl
  | builtin b =>
    cases b with
    | whileBlock | countdown => cases h
    | _ => rfl

/-! ## Frames -/

/-- What may follow when an open block ends: a jump behind its close, or back to the opener of a
loop. -/
def Block.life (length : Nat) (b : Block) : Nat :=
  1 + 4 ^ (length - (b.close + 1)) + if b.kind = .loop then 4 ^ (length - b.opener) else 0

/-- More than the steps that a frame at the place has left in a body of the length without loops. -/
def life (length pointer : Nat) (blocks : List Block) : Nat :=
  4 ^ (length - pointer) + (blocks.map (·.life length)).sum

theorem life_pos (length pointer : Nat) (blocks : List Block) : 0 < life length pointer blocks :=
  Nat.add_pos_left (Nat.pow_pos (by decide)) _

theorem Block.life_pos (length : Nat) (b : Block) : 0 < b.life length :=
  Nat.add_pos_left (Nat.add_pos_left Nat.one_pos _) _

theorem life_cons (length pointer : Nat) (b : Block) (blocks : List Block) :
    life length pointer (b :: blocks) = life length pointer blocks + b.life length := by
  simp only [life, List.map_cons, List.sum_cons]
  omega

/-- Going forward within the body uses up life. -/
theorem life_lt_of_lt {length p q : Nat} (hp : p < length) (hpq : p < q) (blocks : List Block) :
    life length q blocks < life length p blocks :=
  Nat.add_lt_add_right (Nat.pow_lt_pow_right (by decide) (by omega)) _

/-- The end of a block brings less life than the block had. -/
theorem life_lt_of_end {length p q : Nat} {b : Block}
    (hq : 4 ^ (length - q) < 4 ^ (length - p) + b.life length) (blocks : List Block) :
    life length q blocks < life length p (b :: blocks) := by
  simp only [life, List.map_cons, List.sum_cons]
  omega

theorem pow_lt_life_of_leave (length : Nat) (b : Block) :
    4 ^ (length - Nat.min (b.close + 1) length) < b.life length := by
  have hexponent : length - Nat.min (b.close + 1) length = length - (b.close + 1) := by
    change length - min (b.close + 1) length = _
    omega
  rw [hexponent, Block.life, Nat.add_assoc]
  exact Nat.lt_one_add_iff.2 (Nat.le_add_right _ _)

/-- The way back to the opener of a loop is paid for by its block. -/
theorem pow_lt_life_of_loop (length : Nat) {b : Block} (hb : b.kind = .loop) :
    4 ^ (length - b.opener) < b.life length := by
  rw [Block.life, if_pos hb]
  exact Nat.lt_add_of_pos_left (Nat.add_pos_left Nat.one_pos _)

/-- A block of a body without loops takes less life than its opener has. -/
theorem life_lt_of_enter {body : List (Instruction X)} {p : Nat} (hp : p < body.length)
    (hloop : loopsAt body p = false) (blocks : List Block) :
    life body.length (p + 1) (blockAt body p :: blocks) < life body.length p blocks := by
  have hend := lt_endOf hp
  have hblock : (blockAt body p).life body.length = 1 + 4 ^ (body.length - (endOf body p + 1)) := by
    simp [Block.life, blockAt, hloop]
  have hclose : 4 ^ (body.length - (endOf body p + 1)) ≤ 4 ^ (body.length - (p + 1)) :=
    Nat.pow_le_pow_right (by decide) (by omega)
  have hstep : 4 ^ (body.length - p) = 4 * 4 ^ (body.length - (p + 1)) := by
    rw [show body.length - p = body.length - (p + 1) + 1 by omega, Nat.pow_succ, Nat.mul_comm]
  have hpos : 0 < 4 ^ (body.length - (p + 1)) := Nat.pow_pos (by decide)
  rw [life_cons, hblock]
  simp only [life]
  omega

/-- Within a body without loops every move uses up life, also that which ends a block left from
another program. -/
theorem Flow.life_lt {body : List (Instruction X)} (hb : ∀ i ∈ body, i.op.isStraight = true)
    {p q : Nat} {blocks blocks' : List Block} (h : Flow body p blocks q blocks') :
    life body.length q blocks' < life body.length p blocks := by
  cases h with
  | next hp _ _ => exact life_lt_of_lt hp (Nat.lt_succ_self p) _
  | enter ho =>
    have hp := lt_length_of_opensAt ho
    have hloop : loopsAt body p = false := by
      rw [loopsAt, List.getElem?_eq_getElem hp]
      exact Op.loops_eq_false (hb _ (List.getElem_mem hp))
    exact life_lt_of_enter hp hloop _
  | skip ho =>
    have hp := lt_length_of_opensAt ho
    have hend := lt_endOf hp
    exact life_lt_of_lt hp (Nat.lt_min.2 ⟨by omega, hp⟩) _
  | stray hc => exact life_lt_of_lt (lt_length_of_closesAt hc) (Nat.lt_succ_self p) _
  | close hc _ =>
    rw [life_cons]
    exact Nat.lt_add_right _ (life_lt_of_lt (lt_length_of_closesAt hc) (Nat.lt_succ_self p) _)
  | again _ hk => exact life_lt_of_end (Nat.lt_add_left _ (pow_lt_life_of_loop _ hk)) _
  | leave _ _ _ => exact life_lt_of_end (Nat.lt_add_left _ (pow_lt_life_of_leave _ _)) _
  | expire _ _ =>
    rw [life_cons]
    exact Nat.lt_add_of_pos_right (Block.life_pos _ _)
  | rewind _ hk => exact life_lt_of_end (Nat.lt_add_left _ (pow_lt_life_of_loop _ hk)) _

/-! ## Threads -/

def Program.bodyLength (p : Program X) (function : Nat) : Nat :=
  ((p.function? function).elim [] (·.body)).length

theorem Program.length_le_instructionCount {p : Program X} {function : Function X}
    (h : function ∈ p.functions) : function.body.length ≤ p.instructionCount := by
  have hsum : ∀ (functions : List (Function X)) (n : Nat),
      functions.foldl (fun n f => n + f.body.length) n =
        n + (functions.map (·.body.length)).sum := by
    intro functions
    induction functions with
    | nil => exact fun n => rfl
    | cons f rest ih =>
      intro n
      rw [List.foldl_cons, ih, List.map_cons, List.sum_cons, Nat.add_assoc]
  rw [instructionCount, hsum, Nat.zero_add]
  exact List.le_sum_of_mem (List.mem_map_of_mem h)

theorem Program.bodyLength_le (p : Program X) (function : Nat) :
    p.bodyLength function ≤ p.instructionCount := by
  unfold bodyLength
  cases h : p.function? function with
  | none => exact Nat.zero_le _
  | some f => exact length_le_instructionCount (List.mem_of_getElem? h)

/-- More life than a frame has that has just been entered. -/
def Program.span (p : Program X) : Nat := 4 ^ p.instructionCount + 1

def CallFrame.life (program : Program X) (f : CallFrame α) : Nat :=
  Vivarium.life (program.bodyLength f.function) f.pointer f.blocks

/-- A frame that has just been entered has less life than the span. -/
theorem CallFrame.life_enter_lt (program : Program X) (callee : Nat) (inputs : Memory α) :
    (CallFrame.enter callee inputs).life program < program.span :=
  Nat.lt_succ_of_le (Nat.pow_le_pow_right (by decide) (program.bodyLength_le callee))

/-- Without loops every move within a body costs life. -/
theorem CallFrame.Flows.life_lt {program : Program X} (hp : program.Only Op.isStraight)
    {function : Function X} {f g : CallFrame α}
    (hf : program.function? f.function = some function) (h : f.Flows function.body g) :
    g.life program < f.life program := by
  have hlength : program.bodyLength f.function = function.body.length := by
    rw [Program.bodyLength, hf, Option.elim_some]
  rw [CallFrame.life, CallFrame.life, h.1, hlength]
  exact h.2.life_lt (hp function (List.mem_of_getElem? hf))

/-- The lives of the frames, weighted so that a fresh frame weighs less than one step of its caller. -/
def Thread.life (limits : Limits α) (program : Program X) : Thread α → Nat
  | [] => 0
  | f :: rest =>
    f.life program * program.span ^ (limits.maxCallDepth - rest.length) + life limits program rest

namespace Thread

variable {limits : Limits α} {program : Program X}

theorem life_lt_of_lt {f g : CallFrame α} (h : g.life program < f.life program)
    (rest : Thread α) : life limits program (g :: rest) < life limits program (f :: rest) := by
  have hweight : 0 < program.span ^ (limits.maxCallDepth - rest.length) :=
    Nat.pow_pos (Nat.succ_pos _)
  exact Nat.add_lt_add_right (Nat.mul_lt_mul_of_pos_right h hweight) _

/-- A call costs life although the callee brings some along. -/
theorem life_call_lt {f g : CallFrame α} {rest : Thread α} (h : g.life program < f.life program)
    (hdepth : rest.length + 1 < limits.maxCallDepth) (callee : Nat) (inputs : Memory α) :
    life limits program (.enter callee inputs :: g :: rest) < life limits program (f :: rest) := by
  generalize hd : limits.maxCallDepth - (rest.length + 1) = d
  have hd' : limits.maxCallDepth - rest.length = d + 1 := by omega
  have hfresh : (CallFrame.enter callee inputs).life program * program.span ^ d <
      program.span ^ (d + 1) := by
    rw [Nat.pow_succ, Nat.mul_comm]
    exact Nat.mul_lt_mul_of_pos_left (CallFrame.life_enter_lt program callee inputs)
      (Nat.pow_pos (Nat.succ_pos _))
  have hcaller : (g.life program + 1) * program.span ^ (d + 1) ≤
      f.life program * program.span ^ (d + 1) := Nat.mul_le_mul_right _ h
  rw [Nat.succ_mul] at hcaller
  simp only [life, List.length_cons, hd, hd']
  omega

theorem life_pos (f : CallFrame α) (rest : Thread α) : 0 < life limits program (f :: rest) := by
  apply Nat.add_pos_left
  apply Nat.mul_pos
  · exact Vivarium.life_pos _ _ _
  · exact Nat.pow_pos (Nat.succ_pos _)

/-- A return costs the life of the frame that ends. -/
theorem life_ret_lt (f : CallFrame α) (rest : Thread α) :
    life limits program (Thread.ret (f :: rest)) < life limits program (f :: rest) := by
  cases rest with
  | nil => exact life_pos f []
  | cons caller rest =>
    have hself : 0 < f.life program *
        program.span ^ (limits.maxCallDepth - (caller :: rest).length) :=
      Nat.mul_pos (Vivarium.life_pos _ _ _) (Nat.pow_pos (Nat.succ_pos _))
    exact Nat.lt_add_of_pos_left hself

/-- Every move of a live thread uses up life, and a call more than the called frame has. -/
theorem Moves.life_lt [Scalar α] (hp : program.Only Op.isStraight) {b : Board α} {t u : Thread α}
    (h : Moves limits program b t u) (ht : t ≠ []) :
    life limits program u < life limits program t := by
  cases h with
  | gone =>
    cases t with
    | nil => exact absurd rfl ht
    | cons f rest => exact life_pos f rest
  | flow hf hflow => exact life_lt_of_lt (hflow.life_lt hp hf) _
  | call hf hflow hdepth _ => exact life_call_lt (hflow.life_lt hp hf) hdepth _ _
  | ret => exact life_ret_lt _ _

theorem forking?_eq_none (hp : program.Only Op.isStraight) (t : Thread α) :
    t.forking? program = none := by
  cases t with
  | nil => rfl
  | cons f rest =>
    simp only [forking?]
    split
    · next args affinity h =>
      obtain ⟨function, hf, hi⟩ := Option.bind_eq_some_iff.1 h
      cases hp.permits hf hi
    · rfl

end Thread

/-! ## Machines -/

variable [Scalar α]

/-- A call finds the stack full: it is passed over. -/
theorem Thread.step_call_full {limits : Limits α} {program : Program X} {f : CallFrame α}
    {rest : Thread α} {function : Function X} {i : Instruction X}
    (hf : program.function? f.function = some function) (hi : function.body[f.pointer]? = some i)
    (hop : i.op = .builtin .call) (hfull : limits.maxCallDepth ≤ rest.length + 1)
    (host : Host α X σ) (live : Nat) (b : Board α) (s : σ) :
    Thread.step host limits program live (f :: rest) b s =
      ({ f with pointer := f.pointer + 1 } :: rest, b, s) := by
  simp only [step, hf, hi, hop, call, hfull, if_true]

namespace Machine

variable {m : Machine α X}

/-- Every thread that is left of a pass has less life than one that was there before. -/
theorem Rested.life_lt_process (h : m.Rested) (hp : m.program.Only Op.isStraight)
    (host : Host α X σ) (s : σ) {u : Thread α} (hu : u ∈ (m.process host s).1.threads) :
    ∃ t ∈ m.drain.threads, u.life m.limits m.program < t.life m.limits m.program := by
  obtain ⟨turns, board, v, -, hmap, he⟩ := h.exists_schedule host s
  have hfork : turns.filterMap (·.fork? m.limits m.program turns.length) = [] := by
    rw [List.filterMap_eq_nil_iff]
    intro t _
    rw [Turn.fork?, Thread.forking?_eq_none hp]
  rw [he] at hu
  simp only [hfork, List.append_nil] at hu
  obtain ⟨hu, halive⟩ := List.mem_filter.1 hu
  obtain ⟨t, ht, rfl⟩ := List.mem_map.1 hu
  have hmoves := (Thread.moves_step host m.limits m.program turns.length t.thread t.board t.state).1
  refine ⟨t.thread, ?_, hmoves.life_lt hp ?_⟩
  · rw [h.drain, ← hmap]
    exact List.mem_map_of_mem ht
  · intro hdead
    simp [Turn.step, hdead, Thread.step] at halive

/-- What a pass leaves as it is. -/
theorem Rested.process_keeps (h : m.Rested) (host : Host α X σ) (s : σ) :
    (m.process host s).1.program = m.program ∧ (m.process host s).1.limits = m.limits ∧
      (m.process host s).1.events = [] := by
  obtain ⟨turns, board, v, -, -, he⟩ := h.exists_schedule host s
  rw [he]
  exact ⟨rfl, rfl, rfl⟩

/-- More passes than any thread has life leave no thread. -/
theorem Rested.threads_after_eq_nil (h : m.Rested) (hp : m.program.Only Op.isStraight)
    (visits : List (Visit α X))
    (hlife : ∀ t ∈ m.drain.threads, t.life m.limits m.program < visits.length) :
    (m.after visits).threads = [] := by
  induction visits generalizing m with
  | nil =>
    have hnone : m.drain.threads = [] :=
      List.eq_nil_iff_forall_not_mem.2 fun t ht => absurd (hlife t ht) (Nat.not_lt_zero _)
    rw [h.drain] at hnone
    exact (List.append_eq_nil_iff.1 hnone).1
  | cons v rest ih =>
    obtain ⟨hprogram, hlimits, hevents⟩ := h.process_keeps v.host v.state
    have hrested := h.process v.host v.state
    rw [after_cons]
    apply ih hrested (hprogram ▸ hp)
    intro u hu
    rw [hrested.drain, hevents, List.filterMap_nil, List.take_nil, List.append_nil] at hu
    obtain ⟨t, ht, hlt⟩ := h.life_lt_process hp v.host v.state hu
    have hbound := hlife t ht
    rw [List.length_cons] at hbound
    rw [hprogram, hlimits]
    omega

/-- A program without loops and forks dies out. Whatever state the owner has brought a machine to, and
whatever hosts the passes call on, there is a number of passes from which on no thread is left. The
functions may call each other and themselves: a call that finds the stack full is passed over, and the
thread goes on behind it. -/
theorem dies_out (h : m.Driven) (hp : m.program.Only Op.isStraight) :
    (∃ k, ∀ visits : List (Visit α X), k ≤ visits.length → (m.after visits).threadCount = 0) ∧
      ∀ (host : Host α X σ) (live : Nat) (f : CallFrame α) (rest : Thread α) (b : Board α) (s : σ)
        (function : Function X) (i : Instruction X),
        m.program.function? f.function = some function → function.body[f.pointer]? = some i →
        i.op = .builtin .call → m.limits.maxCallDepth ≤ rest.length + 1 →
        Thread.step host m.limits m.program live (f :: rest) b s =
          ({ f with pointer := f.pointer + 1 } :: rest, b, s) := by
  constructor
  · refine ⟨(m.drain.threads.map fun t => t.life m.limits m.program).sum + 1, fun visits hk => ?_⟩
    rw [threadCount, List.length_eq_zero_iff]
    apply h.rested.threads_after_eq_nil hp visits
    intro t ht
    have hle := List.le_sum_of_mem
      (List.mem_map_of_mem (f := fun t => Thread.life m.limits m.program t) ht)
    omega
  · intro host live f rest b s function i hf hi hop hfull
    exact Thread.step_call_full hf hi hop hfull host live b s

def echo : Program FrameOp :=
  ⟨[⟨.new 0, [⟨.builtin .call, .zero, .new 0⟩, ⟨.builtin .call, .zero, .new 0⟩]⟩]⟩

/-- One thread in it, and an event that will start another; three frames at most. -/
def echoing : Machine Rat FrameOp :=
  (((Machine.new (.ofSeed 0) ⟨4, 3, 0, 0⟩).load echo).trigger (.new 0) .empty).enqueue
    [⟨.new 0, .empty⟩]

/-- The calls form a tree of seven frames, each of which takes three steps. -/
theorem dies_out_echo :
    (echoing.after (List.replicate 20 (Visit.mk idle ()))).threadCount = 2 ∧
    (echoing.after (List.replicate 21 (Visit.mk idle ()))).threadCount = 0 ∧
    ∃ k, ∀ visits : List (Visit Rat FrameOp), k ≤ visits.length →
      (echoing.after visits).threadCount = 0 := by
  have hm : echoing.Driven := .enqueue _ (.trigger _ _ (.load echo (.new _ _)))
  have hp : echoing.program.Only Op.isStraight := by decide +kernel
  exact ⟨by decide +kernel, by decide +kernel, (dies_out (σ := Unit) hm hp).1⟩

end Machine

end Vivarium
