import Vivarium.Proofs.Machine.Capacity
/-!
# Calls and returns

A call suspends its caller and all the frames beneath it, and whatever runs above them leaves them
as they are until the called frame ends. Then the caller takes over the outputs of that frame and
keeps everything else. Main statement: this is so for every thread, whatever its steps do in between
and whatever other threads and the hosts do to the board.
-/
namespace Vivarium

variable {α X : Type}

/-! ## Outputs taken over -/

/-- What was stored last at an address is read there; no address is stored to twice. -/
theorem Memory.get?_foldl_set (cells : List (Nat × α))
    (h : cells.Pairwise (fun p q => p.1 < q.1)) (m : Memory α) (a : Nat) :
    (cells.foldl (fun m p => m.set p.1 p.2) m).get? a =
      ((cells.find? (·.1 == a)).map (·.2)).or (m.get? a) := by
  induction cells generalizing m with
  | nil => rfl
  | cons p rest ih =>
    obtain ⟨hp, hrest⟩ := List.pairwise_cons.1 h
    rw [List.foldl_cons, ih hrest]
    by_cases ha : p.1 = a
    · subst ha
      have hnone : rest.find? (·.1 == p.1) = none := by
        rw [List.find?_eq_none]
        intro q hq
        have hlt := hp q hq
        simp only [beq_iff_eq]
        omega
      simp [hnone]
    · rw [get?_set_other m p.2 (Ne.symm ha)]
      simp [ha]

theorem Memory.get?_update (m n : Memory α) (a : Nat) :
    (m.update n).get? a = (n.get? a).or (m.get? a) := get?_foldl_set n.cells n.ascending m a

/-! ## Frames about to act -/

namespace CallFrame

def instruction? (program : Program X) (f : CallFrame α) : Option (Instruction X) :=
  (program.function? f.function).bind (·.body[f.pointer]?)

/-- The frame is about to end: it stands at a return, whatever blocks are open, or behind its body
with none open. -/
inductive Ends (program : Program X) (f : CallFrame α) : Prop where
  | ret {i} : f.instruction? program = some i → i.op = .builtin .ret → Ends program f
  | past {function} : program.function? f.function = some function →
      function.body.length ≤ f.pointer → f.blocks = [] → Ends program f

/-- A caller that goes on where it stopped. Its locals are overridden at the addresses that the
ended frame stored an output at, and at no others. -/
structure TakesOver (caller done g : CallFrame α) : Prop where
  eq_caller : g = { caller with locals := g.locals }
  locals : ∀ a, g.locals.get? a = (done.outputs.get? a).or (caller.locals.get? a)

end CallFrame

namespace Thread

/-- Whoever called takes over from the frame that ends. -/
theorem ret_takesOver (done caller : CallFrame α) (rest : Thread α) :
    ∃ g, ret (done :: caller :: rest) = g :: rest ∧ caller.TakesOver done g :=
  ⟨_, rfl, rfl, fun a => Memory.get?_update caller.locals done.outputs a⟩

/-! ## Steps in any surroundings -/

variable [Scalar α] {limits : Limits α} {program : Program X}

/-- One step of a thread, on any board and with any host. Between two steps of a thread the board is
in the hands of the other threads. -/
def Steps (limits : Limits α) (program : Program X) (t u : Thread α) : Prop :=
  ∃ (σ : Type) (host : Host α X σ) (live : Nat) (b : Board α) (s : σ),
    (t.step host limits program live b s).1 = u

/-- Steps in a row that all leave the thread deeper than the depth. -/
inductive Above (limits : Limits α) (program : Program X) (depth : Nat) (t : Thread α) :
    Thread α → Prop where
  | start : Above limits program depth t t
  | step {u v} : Above limits program depth t u → Steps limits program u v → depth < v.length →
      Above limits program depth t v

theorem Steps.moves {t u : Thread α} (h : Steps limits program t u) :
    ∃ b, Moves limits program b t u := by
  obtain ⟨σ, host, live, b, s, rfl⟩ := h
  exact ⟨b, (moves_step host limits program live t b s).1⟩

theorem length_le_call (b : Board α) (affinity : Tag) (f : CallFrame α) (rest : Thread α) :
    rest.length < (call limits b affinity (f :: rest)).length := by
  unfold call
  simp only
  split
  · exact Nat.lt_succ_self _
  · split
    · exact Nat.lt_succ_self _
    · exact Nat.lt_succ_of_lt (Nat.lt_succ_self _)

/-- Only the end of a frame uncovers the one beneath it. -/
theorem Steps.ends {f : CallFrame α} {rest u : Thread α} (h : Steps limits program (f :: rest) u)
    (hu : u ≠ []) (hlength : u.length ≤ rest.length) : f.Ends program := by
  obtain ⟨σ, host, live, b, s, rfl⟩ := h
  cases hf : program.function? f.function with
  | none => simp [step, hf] at hu
  | some function =>
    cases hi : function.body[f.pointer]? with
    | none =>
      cases hb : f.blocks with
      | nil => exact .past hf (List.getElem?_eq_none_iff.1 hi) hb
      | cons block blocks =>
        simp only [step, hf, hi, hb] at hlength
        exact absurd hlength (Nat.not_le.2 (Nat.lt_succ_self _))
    | some i =>
      by_cases hop : i.op = .builtin .ret
      · exact .ret (by rw [CallFrame.instruction?, hf, Option.bind_some, hi]) hop
      · simp only [step, hf, hi] at hu hlength
        split at hlength
        · exact absurd hlength (Nat.not_le.2 (length_le_call b i.affinity _ rest))
        · next h => exact absurd h hop
        · next h => simp [h] at hu
        all_goals exact absurd hlength (Nat.not_le.2 (Nat.lt_succ_self _))

/-- A frame that is about to end does, in whatever surroundings. -/
theorem Steps.eq_ret {f : CallFrame α} {rest u : Thread α} (h : Steps limits program (f :: rest) u)
    (hf : f.Ends program) : u = ret (f :: rest) := by
  obtain ⟨σ, host, live, b, s, rfl⟩ := h
  cases hf with
  | ret hi hop =>
    obtain ⟨function, hf, hi⟩ := Option.bind_eq_some_iff.1 hi
    simp only [step, hf, hi, hop]
    exact ret_cons f _ rest rfl
  | past hf hl hb => simp [step, hf, List.getElem?_eq_none hl, hb]

/-- What a step can do to a frame with others above and beneath it: those beneath it stay, unless
the whole thread is gone or the frame was the innermost and ended. -/
theorem Steps.above {inner outer u : Thread α} {f : CallFrame α}
    (h : Steps limits program (inner ++ f :: outer) u) :
    (∃ inner' g, u = inner' ++ g :: outer ∧ g.function = f.function) ∨ u = [] ∨
      inner = [] ∧ f.Ends program ∧ u = ret (f :: outer) := by
  obtain ⟨b, hm⟩ := h.moves
  cases inner with
  | nil =>
    cases hm with
    | gone => exact .inr (.inl rfl)
    | flow _ hfg => exact .inl ⟨[], _, rfl, hfg.1⟩
    | call _ hfg _ _ => exact .inl ⟨[_], _, rfl, hfg.1⟩
    | ret =>
      by_cases hu : ret (f :: outer) = []
      · exact .inr (.inl hu)
      · exact .inr (.inr ⟨rfl, h.ends hu (Nat.le_of_eq (length_ret f outer)), rfl⟩)
  | cons innermost inner =>
    cases hm with
    | gone => exact .inr (.inl rfl)
    | flow _ _ => exact .inl ⟨_ :: inner, f, rfl, rfl⟩
    | call _ _ _ _ => exact .inl ⟨_ :: _ :: inner, f, rfl, rfl⟩
    | ret =>
      cases inner with
      | nil => exact .inl ⟨[], _, rfl, rfl⟩
      | cons caller inner => exact .inl ⟨_ :: inner, f, rfl, rfl⟩

/-- As long as a thread is deeper than the frames that a call suspended, they lie beneath it as they
were, and next above them the frame of the called function. -/
theorem Above.exists_eq_append {f : CallFrame α} {outer u : Thread α}
    (h : Above limits program outer.length (f :: outer) u) :
    ∃ inner g, u = inner ++ g :: outer ∧ g.function = f.function := by
  induction h with
  | start => exact ⟨[], f, rfl, rfl⟩
  | step _ hs hdeep ih =>
    obtain ⟨inner, g, rfl, hg⟩ := ih
    obtain ⟨inner', g', rfl, hg'⟩ | rfl | ⟨-, -, rfl⟩ := hs.above
    · exact ⟨inner', g', rfl, hg'.trans hg⟩
    · exact absurd hdeep (Nat.not_lt_zero _)
    · rw [length_ret] at hdeep
      exact absurd hdeep (Nat.lt_irrefl _)

/-- The step that brings a thread back to the depth of a suspended caller is the end of the frame
above it, unless the whole thread is lost. -/
theorem Steps.returns {inner rest v : Thread α} {done caller : CallFrame α}
    (h : Steps limits program (inner ++ done :: caller :: rest) v)
    (hlength : v.length ≤ rest.length + 1) :
    v = [] ∨ inner = [] ∧ done.Ends program ∧ ∃ g, v = g :: rest ∧ caller.TakesOver done g := by
  obtain ⟨inner', g, rfl, -⟩ | rfl | ⟨hinner, hends, rfl⟩ := h.above
  · simp only [List.length_append, List.length_cons] at hlength
    omega
  · exact .inl rfl
  · exact .inr ⟨hinner, hends, ret_takesOver done caller rest⟩

/-! ## Calls -/

section Calls

variable {σ : Type} {f : CallFrame α} {i : Instruction X}

theorem step_call (hi : f.instruction? program = some i) (hop : i.op = .builtin .call)
    (host : Host α X σ) (live : Nat) (rest : Thread α) (b : Board α) (s : σ) :
    step host limits program live (f :: rest) b s =
      (call limits b i.affinity ({ f with pointer := f.pointer + 1 } :: rest), b, s) := by
  obtain ⟨function, hf, hi⟩ := Option.bind_eq_some_iff.1 hi
  simp only [step, hf, hi, hop]

theorem step_terminate (hi : f.instruction? program = some i) (hop : i.op = .builtin .terminate)
    (host : Host α X σ) (live : Nat) (rest : Thread α) (b : Board α) (s : σ) :
    step host limits program live (f :: rest) b s = ([], b, s) := by
  obtain ⟨function, hf, hi⟩ := Option.bind_eq_some_iff.1 hi
  simp only [step, hf, hi, hop]

/-- At the limit of depth a call is skipped. -/
theorem call_of_full (b : Board α) (affinity : Tag) (f : CallFrame α) {rest : Thread α}
    (h : limits.maxCallDepth ≤ rest.length + 1) :
    call limits b affinity (f :: rest) = f :: rest := by
  simp only [call, h, if_true]

/-- A call that no function answers is skipped. -/
theorem call_of_none {b : Board α} {affinity : Tag} (h : b.resolve? affinity = none)
    (f : CallFrame α) (rest : Thread α) : call limits b affinity (f :: rest) = f :: rest := by
  simp [call, h]

/-- Otherwise the callee starts with the locals of its caller. -/
theorem call_of_some {b : Board α} {affinity : Tag} {callee : Nat} (f : CallFrame α)
    {rest : Thread α} (hdepth : rest.length + 1 < limits.maxCallDepth)
    (h : b.resolve? affinity = some callee) :
    call limits b affinity (f :: rest) = .enter callee f.locals :: f :: rest := by
  simp only [call, if_neg (Nat.not_le.2 hdepth), h]

end Calls

/-- Calls and returns. A call that finds the stack full or no match is passed over. One that is
accepted hands the locals of its caller to a fresh frame, and until the stack is again as deep as it
was the caller and the frames beneath it stay as they are. The stack is then either lost as a whole
or was uncovered by the end of the called frame, and the caller takes over the outputs of that frame
and nothing else; every end of the called frame does this. A termination drops the stack at any
depth. -/
theorem calls_return (limits : Limits α) (program : Program X) {f : CallFrame α}
    {i : Instruction X} (hi : f.instruction? program = some i) (rest : Thread α) :
    let resumed := { f with pointer := f.pointer + 1 }
    (i.op = .builtin .call → ∀ {σ : Type} (host : Host α X σ) (live : Nat) (b : Board α) (s : σ),
      (limits.maxCallDepth ≤ rest.length + 1 ∨ b.resolve? i.affinity = none →
        step host limits program live (f :: rest) b s = (resumed :: rest, b, s)) ∧
      ∀ callee, rest.length + 1 < limits.maxCallDepth → b.resolve? i.affinity = some callee →
        let fresh := ⟨.empty, f.locals, .empty, callee, 0, []⟩
        step host limits program live (f :: rest) b s = (fresh :: resumed :: rest, b, s) ∧
        ∀ u, Above limits program (rest.length + 1) (fresh :: resumed :: rest) u →
          ∃ inner done, u = inner ++ done :: resumed :: rest ∧ done.function = callee ∧
            (∀ v, Steps limits program u v → v.length ≤ rest.length + 1 →
              v = [] ∨ inner = [] ∧ done.Ends program ∧
                ∃ g, v = g :: rest ∧ resumed.TakesOver done g) ∧
            (inner = [] → done.Ends program → ∀ v, Steps limits program u v →
              ∃ g, v = g :: rest ∧ resumed.TakesOver done g)) ∧
    (i.op = .builtin .terminate →
      ∀ {σ : Type} (host : Host α X σ) (live : Nat) (b : Board α) (s : σ),
        step host limits program live (f :: rest) b s = ([], b, s)) := by
  intro resumed
  constructor
  · intro hop σ host live b s
    constructor
    · intro hskip
      rw [step_call hi hop]
      cases hskip with
      | inl hfull => rw [call_of_full b i.affinity _ hfull]
      | inr hnone => rw [call_of_none hnone]
    · intro callee hdepth hcallee fresh
      constructor
      · rw [step_call hi hop, call_of_some _ hdepth hcallee]
        rfl
      · intro u hu
        have hdeep : Above limits program (resumed :: rest).length (fresh :: resumed :: rest) u :=
          hu
        obtain ⟨inner, done, rfl, hdone⟩ := hdeep.exists_eq_append
        refine ⟨inner, done, rfl, hdone, fun v hv => hv.returns, ?_⟩
        intro hinner hends v hv
        subst hinner
        rw [hv.eq_ret hends]
        exact ret_takesOver done resumed rest
  · intro hop σ host live b s
    exact step_terminate hi hop host live rest b s

/-- The first function calls the second and terminates. The second stores two outputs, opens a
block, calls the third, which runs off its end, and returns with the block open. -/
def errand : Program FrameOp :=
  ⟨[⟨.new 0, [⟨.builtin .setMem, ⟨0, 7, 0⟩, .new 0⟩, ⟨.builtin .setMem, ⟨1, 8, 0⟩, .new 0⟩,
      ⟨.builtin .call, .zero, .new 3⟩, .bare (.builtin .terminate)]⟩,
    ⟨.new 3, [⟨.builtin .input, ⟨0, 2, 0⟩, .new 0⟩, ⟨.builtin .setMem, ⟨1, 5, 0⟩, .new 0⟩,
      ⟨.builtin .output, ⟨1, 1, 0⟩, .new 0⟩, ⟨.builtin .output, ⟨2, 3, 0⟩, .new 0⟩,
      ⟨.builtin .ifBlock, ⟨1, 0, 0⟩, .new 0⟩, ⟨.builtin .call, .zero, .new 12⟩,
      .bare (.builtin .ret), .bare (.builtin .close)]⟩,
    ⟨.new 12, [⟨.builtin .output, ⟨0, 0, 0⟩, .new 0⟩]⟩]⟩

def errandLimits : Limits Rat := ⟨4, 3, 0, 0⟩

def errands : Machine Rat FrameOp :=
  (((Machine.new (.ofSeed 0) errandLimits).load errand).trigger (.new 0) .empty).after
    (List.replicate 2 (Machine.Visit.mk Machine.idle ()))

def caller : CallFrame Rat := ⟨.ofList [(0, 7), (1, 8)], .empty, .empty, 0, 2, []⟩

def answered : CallFrame Rat := ⟨.ofList [(0, 7), (1, 5), (3, 7)], .empty, .empty, 0, 3, []⟩

def onErrand : Nat → Thread Rat
  | 0 => (step Machine.idle errandLimits errand 1 [caller] errands.board ()).1
  | n + 1 => (step Machine.idle errandLimits errand 1 (onErrand n) errands.board ()).1

/-- The called function returns in the ninth step after the call. Of its outputs one replaces what
its caller had and one is new. Where the stack has room for one frame only the call is passed over.
-/
theorem calls_return_errand :
    errands.threads = [[caller]] ∧
    caller.instruction? errand = some ⟨.builtin .call, .zero, .new 3⟩ ∧
    errands.board.resolve? (.new 3) = some 1 ∧
    (∀ k ≤ 8, 1 < (onErrand k).length) ∧
    (∃ done, onErrand 8 = [done, { caller with pointer := 3 }] ∧
      done.blocks = [⟨4, 7, .basic⟩] ∧ done.Ends errand ∧ onErrand 9 = [answered] ∧
      { caller with pointer := 3 }.TakesOver done answered) ∧
    onErrand 10 = [] ∧
    step Machine.idle { errandLimits with maxCallDepth := 1 } errand 1 [caller] errands.board () =
      ([{ caller with pointer := 3 }], errands.board, ()) := by
  have hi : caller.instruction? errand = some ⟨.builtin .call, .zero, .new 3⟩ := by decide +kernel
  have hi' : answered.instruction? errand = some (.bare (.builtin .terminate)) := by decide +kernel
  have hcallee : errands.board.resolve? (.new 3) = some 1 := by decide +kernel
  have hdeep : ∀ k ≤ 8, 1 < (onErrand k).length := by decide +kernel
  have hblocks : (onErrand 8).head?.map (·.blocks) = some [⟨4, 7, .basic⟩] := by decide +kernel
  have hback : onErrand 9 = [answered] := by decide +kernel
  have hsteps (n : Nat) : Steps errandLimits errand (onErrand n) (onErrand (n + 1)) :=
    ⟨Unit, Machine.idle, 1, errands.board, (), rfl⟩
  have hcall := (calls_return errandLimits errand hi []).1 rfl Machine.idle 1 errands.board ()
  obtain ⟨hstep, hrun⟩ := hcall.2 1 (by decide) hcallee
  have habove : ∀ n ≤ 8, Above errandLimits errand 1
      [⟨.empty, caller.locals, .empty, 1, 0, []⟩, { caller with pointer := 3 }] (onErrand n) := by
    intro n
    induction n with
    | zero =>
      intro _
      rw [onErrand, hstep]
      exact .start
    | succ n ih => exact fun hn => .step (ih (by omega)) (hsteps n) (hdeep _ hn)
  obtain ⟨inner, done, hu, -, hreturn, -⟩ := hrun _ (habove 8 (Nat.le_refl 8))
  have hreturn := hreturn _ (hsteps 8)
  rw [hback] at hreturn
  obtain hnil | ⟨rfl, hends, g, hg, htakes⟩ := hreturn (Nat.le_refl 1)
  · cases hnil
  · cases hg
    rw [hu] at hblocks
    refine ⟨by decide +kernel, hi, hcallee, hdeep,
      ⟨done, hu, Option.some.inj hblocks, hends, hback, htakes⟩, ?_, ?_⟩
    · rw [onErrand, hback,
        (calls_return errandLimits errand hi' []).2 rfl Machine.idle 1 errands.board ()]
    · exact ((calls_return _ errand hi []).1 rfl Machine.idle 1 errands.board ()).1
        (.inl (by decide))

end Thread

end Vivarium
