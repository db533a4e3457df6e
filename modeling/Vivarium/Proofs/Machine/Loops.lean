import Mathlib.Order.Bounds.Basic
import Vivarium.Scalar.Binary64
import Vivarium.Proofs.Machine.Calls
/-!
# Counted loops

A countdown tests its counter, takes one from it, and opens a block whose close leads back to the countdown. So
the block runs as often as one can be taken from the counter before nothing is left, and the step that finds
nothing left goes on behind the close. Main statement: this is so of a block that keeps to the memories of its
frame and to other addresses than the counter's, from every frame that stands at the countdown, on every board.
-/
namespace Vivarium

variable {α X : Type}

/-! ## Plain instructions -/

/-- Operations that neither move the pointer nor look at the board. A commit writes to the board, and nothing of
what it writes comes back to the frame. -/
def Builtin.isPlain : Builtin → Bool
  | inc | dec | not | add | sub | mult | div | mod | testEqu | testNEqu | testLess => true
  | setMem | copyMem | swapMem | input | output | commit | nop => true
  | _ => false

/-- Local addresses that a plain operation stores at, or may store at. -/
def Builtin.stores (op : Builtin) (args : Operands) : List Nat :=
  match op with
  | inc | dec | not | setMem | copyMem => [args.first]
  | add | sub | mult | div | mod | testEqu | testNEqu | testLess => [args.third]
  | swapMem => [args.first, args.second]
  | input => [args.second]
  | _ => []

/-- A plain instruction that stores at other addresses than the one given. -/
def Instruction.Spares (i : Instruction X) (a : Nat) : Prop :=
  ∃ op, i.op = .builtin op ∧ op.isPlain = true ∧ a ∉ op.stores i.args

theorem Builtin.not_mem_of_isPlain {op : Builtin} (h : op.isPlain = true) :
    op ∉ [Builtin.call, .ret, .terminate, .fork] := by
  intro hmem
  simp only [List.mem_cons, List.not_mem_nil, or_false] at hmem
  obtain rfl | rfl | rfl | rfl := hmem
  all_goals cases h

/-- A countdown at `i` on the address `a` with its close at `e`, and plain instructions in between that spare the
counter. -/
structure CountsDown (body : List (Instruction X)) (a i e : Nat) : Prop where
  opener : ∃ x, body[i]? = some x ∧ x.op = .builtin .countdown ∧ x.args.first = a
  close : ∃ x, body[e]? = some x ∧ x.op = .builtin .close
  matching : endOfBlock body (i + 1) = e
  inner : ∀ j x, i < j → j < e → body[j]? = some x → x.Spares a

namespace CountsDown

variable {body : List (Instruction X)} {a i e : Nat}

theorem lt (h : CountsDown body a i e) : i < e := by
  obtain ⟨x, hx, -⟩ := h.opener
  obtain ⟨hi, -⟩ := List.getElem?_eq_some_iff.1 hx
  exact h.matching ▸ lt_endOf hi

theorem lt_length (h : CountsDown body a i e) : e < body.length := by
  obtain ⟨x, hx, -⟩ := h.close
  exact (List.getElem?_eq_some_iff.1 hx).1

end CountsDown

namespace CallFrame

def placed (f : CallFrame α) (pointer : Nat) (blocks : List Block) : CallFrame α := { f with pointer, blocks }

@[simp] theorem placed_placed (f : CallFrame α) (p q : Nat) (bs cs : List Block) :
    (f.placed p bs).placed q cs = f.placed q cs := rfl

/-- The two frames differ in their locals and outputs at most. -/
def Alters (f g : CallFrame α) : Prop := g = { f with locals := g.locals, outputs := g.outputs }

theorem Alters.trans {f g h : CallFrame α} (hg : f.Alters g) (hh : g.Alters h) : f.Alters h := by
  rw [Alters, hg] at hh
  exact hh

section Alters

variable {f g : CallFrame α}

theorem Alters.pointer_eq (h : f.Alters g) : g.pointer = f.pointer := by rw [h]

theorem Alters.blocks_eq (h : f.Alters g) : g.blocks = f.blocks := by rw [h]

theorem Alters.function_eq (h : f.Alters g) : g.function = f.function := by rw [h]

theorem Alters.placed_self (h : f.Alters g) : g.placed f.pointer f.blocks = g := by
  rw [h]
  rfl

end Alters

end CallFrame

variable [Scalar α]

def Board.blank : Board α := ⟨.empty 0, .empty, [], .ofSeed 0⟩

/-- What a plain instruction makes of a frame. It is carried out on the same memories elsewhere, and what it stores
there is taken over. -/
def Instruction.effect (i : Instruction X) (f : CallFrame α) : CallFrame α :=
  match i.op with
  | .builtin op =>
    let g : CallFrame α := ⟨f.locals, f.inputs, f.outputs, 0, 0, []⟩
    let h := (perform .standard ([] : List (Instruction X)) op i.args i.affinity g .blank).1
    { f with locals := h.locals, outputs := h.outputs }
  | .ext _ => f

section Plain

variable {op : Builtin} {i : Instruction X} {a : Nat}

/-- The place of a frame plays no part in the effect. -/
theorem Instruction.effect_placed (i : Instruction X) (f : CallFrame α) (p : Nat) (bs : List Block) :
    i.effect (f.placed p bs) = (i.effect f).placed p bs := by
  unfold effect
  cases i.op with
  | builtin op => rfl
  | ext x => rfl

/-- An effect reaches locals and outputs only. -/
theorem Instruction.alters_effect (i : Instruction X) (f : CallFrame α) : f.Alters (i.effect f) := by
  unfold effect
  cases i.op with
  | builtin op => rfl
  | ext x => rfl

/-- A plain instruction has its effect on any board and at any place. -/
theorem Instruction.perform_eq_effect (hop : i.op = .builtin op) (h : op.isPlain = true) (limits : Limits α)
    (body : List (Instruction X)) (f : CallFrame α) (b : Board α) :
    (perform limits body op i.args i.affinity f b).1 = i.effect f := by
  simp only [effect, hop]
  cases op with
  | ifBlock | whileBlock | countdown | close | breakBlock | call | ret | pull | fork | terminate | rng
  | adjRegulator | setRegulator | senseRegulator => cases h
  | div =>
    simp only [perform]
    split
    · next hzero => rw [if_pos (by exact hzero)]
    · next hzero =>
      rw [if_neg (by exact hzero)]
      rfl
  | mod =>
    simp only [perform, CallFrame.remainder]
    split
    · next hnone => rw [if_pos (by exact hnone)]
    · next hnone =>
      rw [if_neg (by exact hnone)]
      rfl
  | _ => rfl

theorem Instruction.Spares.readLocal_effect (h : i.Spares a) (f : CallFrame α) :
    (i.effect f).readLocal a = f.readLocal a := by
  obtain ⟨op, hop, hplain, hstores⟩ := h
  have hset (g : CallFrame α) (c : Nat) (x : α) (hc : a ≠ c) : (g.setLocal c x).readLocal a = g.readLocal a :=
    Memory.read_set_other g.locals x hc
  rw [← i.perform_eq_effect hop hplain .standard ([] : List (Instruction X)) f .blank]
  cases op with
  | ifBlock | whileBlock | countdown | close | breakBlock | call | ret | pull | fork | terminate | rng
  | adjRegulator | setRegulator | senseRegulator => cases hplain
  | inc | dec | not | setMem | copyMem => exact hset _ _ _ (List.ne_of_not_mem_cons hstores)
  | add | sub | mult | testEqu | testNEqu | testLess => exact hset _ _ _ (List.ne_of_not_mem_cons hstores)
  | div =>
    simp only [perform]
    split
    · rfl
    · exact hset _ _ _ (List.ne_of_not_mem_cons hstores)
  | mod =>
    simp only [perform, CallFrame.remainder]
    split
    · rfl
    · exact hset _ _ _ (List.ne_of_not_mem_cons hstores)
  | swapMem =>
    have hsecond := List.ne_of_not_mem_cons (List.not_mem_of_not_mem_cons hstores)
    exact (hset _ _ _ hsecond).trans (hset _ _ _ (List.ne_of_not_mem_cons hstores))
  | input => exact hset _ _ _ (List.ne_of_not_mem_cons hstores)
  | output | commit | nop => rfl

end Plain

/-! ## One round -/

namespace CallFrame

/-- One is taken from the counter, and then the first `n` instructions of the block are carried out. -/
def pass (body : List (Instruction X)) (a i n : Nat) (f : CallFrame α) : CallFrame α :=
  ((body.drop (i + 1)).take n).foldl (fun f x => x.effect f) (f.setLocal a (f.readLocal a - 1))

/-- One is taken from the counter, and then the whole block is carried out. -/
def round (body : List (Instruction X)) (a i e : Nat) (f : CallFrame α) : CallFrame α :=
  f.pass body a i (e - i - 1)

variable {body : List (Instruction X)} {a i e n : Nat}

theorem pass_succ {x : Instruction X} (hx : body[i + 1 + n]? = some x) (f : CallFrame α) :
    f.pass body a i (n + 1) = x.effect (f.pass body a i n) := by
  have htake : (body.drop (i + 1)).take (n + 1) = (body.drop (i + 1)).take n ++ [x] := by
    rw [List.take_add_one, List.getElem?_drop, hx]
    rfl
  rw [pass, htake, List.foldl_append]
  rfl

theorem alters_pass (body : List (Instruction X)) (a i n : Nat) (f : CallFrame α) :
    f.Alters (f.pass body a i n) := by
  have hfold (l : List (Instruction X)) (g : CallFrame α) : g.Alters (l.foldl (fun f x => x.effect f) g) := by
    induction l generalizing g with
    | nil => rfl
    | cons x l ih => exact (x.alters_effect g).trans (ih _)
  have hset : f.Alters (f.setLocal a (f.readLocal a - 1)) := rfl
  exact hset.trans (hfold _ _)

/-- Within the block the counter is one less than before it. -/
theorem readLocal_pass (h : CountsDown body a i e) (hn : n ≤ e - i - 1) (f : CallFrame α) :
    (f.pass body a i n).readLocal a = f.readLocal a - 1 := by
  induction n with
  | zero => exact Memory.read_set_same f.locals a _
  | succ n ih =>
    have hlength := h.lt_length
    have hx := List.getElem?_eq_getElem (show i + 1 + n < body.length by omega)
    rw [pass_succ hx, (h.inner (i + 1 + n) _ (by omega) (by omega) hx).readLocal_effect, ih (by omega)]

/-- A number of rounds change locals and outputs only, and take that number from the counter, one by one. -/
theorem alters_iterate (body : List (Instruction X)) (a i e : Nat) (f : CallFrame α) (m : Nat) :
    f.Alters ((round body a i e)^[m] f) := by
  induction m with
  | zero => rfl
  | succ m ih =>
    rw [Function.iterate_succ_apply']
    exact ih.trans (alters_pass body a i _ _)

/-- After some rounds one has been taken from the counter as many times. -/
theorem readLocal_iterate (h : CountsDown body a i e) (f : CallFrame α) (m : Nat) :
    ((round body a i e)^[m] f).readLocal a = (· - 1)^[m] (f.readLocal a) := by
  induction m with
  | zero => rfl
  | succ m ih =>
    rw [Function.iterate_succ_apply', Function.iterate_succ_apply', ← ih]
    exact readLocal_pass h (Nat.le_refl _) _

end CallFrame

namespace Thread

variable {limits : Limits α} {program : Program X} {function : Function X} {f : CallFrame α} {rest u : Thread α}
  {x : Instruction X} {op : Builtin} {a i e : Nat}

/-- A built-in operation, unless it works on the stack of frames or the list of threads. -/
theorem Steps.eq_perform (h : Steps limits program (f :: rest) u)
    (hf : program.function? f.function = some function) (hx : function.body[f.pointer]? = some x)
    (hop : x.op = .builtin op) (hstays : op ∉ [Builtin.call, .ret, .terminate, .fork]) :
    ∃ b, u = (perform limits function.body op x.args x.affinity { f with pointer := f.pointer + 1 } b).1 ::
      rest := by
  obtain ⟨σ, host, live, b, s, rfl⟩ := h
  refine ⟨b, ?_⟩
  simp only [step, hf, hx, hop]
  cases op with
  | call | ret | terminate | fork => simp at hstays
  | _ => rfl

/-- A step over a plain instruction has its effect and goes on one place. -/
theorem Steps.eq_effect (h : Steps limits program (f :: rest) u)
    (hf : program.function? f.function = some function) (hx : function.body[f.pointer]? = some x)
    (hspares : x.Spares a) : u = (x.effect f).placed (f.pointer + 1) f.blocks :: rest := by
  obtain ⟨op, hop, hplain, -⟩ := hspares
  obtain ⟨b, rfl⟩ := h.eq_perform hf hx hop (Builtin.not_mem_of_isPlain hplain)
  rw [x.perform_eq_effect hop hplain]
  exact congrArg (· :: rest) (x.effect_placed f (f.pointer + 1) f.blocks)

/-- A countdown that finds something left enters its block. -/
theorem Steps.enters (h : Steps limits program (f :: rest) u)
    (hf : program.function? f.function = some function) (hc : CountsDown function.body a i e) (hi : f.pointer = i)
    (hleft : (f.readLocal a == 0) = false) :
    u = (f.pass function.body a i 0).placed (i + 1) (⟨i, e, .loop⟩ :: f.blocks) :: rest := by
  subst hi
  obtain ⟨x, hx, hop, rfl⟩ := hc.opener
  obtain ⟨b, rfl⟩ := h.eq_perform hf hx hop (by decide)
  have hne : (({ f with pointer := f.pointer + 1 } : CallFrame α).readLocal x.args.first != 0) = true := by
    change (!(f.readLocal x.args.first == 0)) = true
    rw [hleft]
    rfl
  have hend := hc.matching
  simp only [perform, hne, if_true, CallFrame.openBlock]
  rw [← hend]
  rfl

/-- A countdown that finds nothing left goes on behind the close. -/
theorem Steps.leaves (h : Steps limits program (f :: rest) u)
    (hf : program.function? f.function = some function) (hc : CountsDown function.body a i e) (hi : f.pointer = i)
    (hleft : (f.readLocal a == 0) = true) : u = f.placed (e + 1) f.blocks :: rest := by
  subst hi
  obtain ⟨x, hx, hop, rfl⟩ := hc.opener
  obtain ⟨b, rfl⟩ := h.eq_perform hf hx hop (by decide)
  have heq : (({ f with pointer := f.pointer + 1 } : CallFrame α).readLocal x.args.first != 0) = false := by
    change (!(f.readLocal x.args.first == 0)) = false
    rw [hleft]
    rfl
  have hend := hc.matching
  have hmin : Nat.min (e + 1) function.body.length = e + 1 := Nat.min_eq_left hc.lt_length
  simp only [perform, heq, Bool.false_eq_true, if_false, CallFrame.openBlock, CallFrame.leave, hend, hmin]
  rfl

/-- The close of a loop leads back to its opener. -/
theorem Steps.goesBack (h : Steps limits program (f :: rest) u) {blocks : List Block}
    (hf : program.function? f.function = some function) (hx : function.body[f.pointer]? = some x)
    (hop : x.op = .builtin .close) (hblocks : f.blocks = ⟨i, e, .loop⟩ :: blocks) :
    u = f.placed i blocks :: rest := by
  obtain ⟨b, rfl⟩ := h.eq_perform hf hx hop (by decide)
  exact congrArg (· :: rest) (CallFrame.closeBlock_loop (f := { f with pointer := f.pointer + 1 }) hblocks rfl)

/-! ## All rounds -/

section Rounds

variable {t : Nat → Thread α} {m n r : Nat}

/-- A countdown that finds something left, and the block behind it step by step. -/
theorem pass_of_steps (ht : ∀ n, Steps limits program (t n) (t (n + 1)))
    (hf : program.function? f.function = some function) (hc : CountsDown function.body a i e) (hi : f.pointer = i)
    (hn : t n = f :: rest) (hleft : (f.readLocal a == 0) = false) (hr : r < e - i) :
    t (n + (r + 1)) =
      (f.pass function.body a i r).placed (i + 1 + r) (⟨i, e, .loop⟩ :: f.blocks) :: rest := by
  subst hi
  induction r with
  | zero => exact (hn ▸ ht n).enters hf hc rfl hleft
  | succ r ih =>
    have hstep := ht (n + (r + 1))
    rw [ih (by omega)] at hstep
    have hlength := hc.lt_length
    have hx := List.getElem?_eq_getElem (show f.pointer + 1 + r < function.body.length by omega)
    have hspares := hc.inner (f.pointer + 1 + r) _ (by omega) (by omega) hx
    have hfunction := (CallFrame.alters_pass function.body a f.pointer r f).function_eq
    have hnext := hstep.eq_effect ((congrArg program.function? hfunction).trans hf) hx hspares
    rw [Instruction.effect_placed, ← CallFrame.pass_succ hx] at hnext
    exact hnext

/-- A countdown that finds something left, its block, and the close. -/
theorem round_of_steps (ht : ∀ n, Steps limits program (t n) (t (n + 1)))
    (hf : program.function? f.function = some function) (hc : CountsDown function.body a i e) (hi : f.pointer = i)
    (hn : t n = f :: rest) (hleft : (f.readLocal a == 0) = false) :
    t (n + (e - i + 1)) = f.round function.body a i e :: rest := by
  subst hi
  have hlt := hc.lt
  have halters := CallFrame.alters_pass function.body a f.pointer (e - f.pointer - 1) f
  have hlast := pass_of_steps ht hf hc rfl hn hleft (show e - f.pointer - 1 < e - f.pointer by omega)
  rw [show e - f.pointer - 1 + 1 = e - f.pointer by omega,
    show f.pointer + 1 + (e - f.pointer - 1) = e by omega] at hlast
  have hstep := ht (n + (e - f.pointer))
  rw [hlast] at hstep
  obtain ⟨x, hx, hop⟩ := hc.close
  have hback := hstep.goesBack ((congrArg program.function? halters.function_eq).trans hf) hx hop rfl
  rw [CallFrame.placed_placed, halters.placed_self] at hback
  exact hback

/-- As long as something is left, a thread has gone through a number of rounds. -/
theorem rounds_of_steps (ht : ∀ n, Steps limits program (t n) (t (n + 1)))
    (hf : program.function? f.function = some function) (hc : CountsDown function.body a i e) (hi : f.pointer = i)
    (h0 : t 0 = f :: rest) (hleft : ∀ j < m, ((· - 1)^[j] (f.readLocal a) == 0) = false) :
    t (m * (e - i + 1)) = (CallFrame.round function.body a i e)^[m] f :: rest := by
  induction m with
  | zero => exact (congrArg t (Nat.zero_mul _)).trans h0
  | succ m ih =>
    have hm := ih fun j hj => hleft j (Nat.lt_succ_of_lt hj)
    have halters := CallFrame.alters_iterate function.body a i e f m
    have hcounter := CallFrame.readLocal_iterate hc f m
    have hround := round_of_steps ht ((congrArg program.function? halters.function_eq).trans hf) hc
      (halters.pointer_eq.trans hi) hm (by rw [hcounter]; exact hleft m (Nat.lt_succ_self m))
    rw [Function.iterate_succ_apply', Nat.succ_mul]
    exact hround

/-- Within a round a thread goes through the block instruction by instruction. -/
theorem inside_of_steps (ht : ∀ n, Steps limits program (t n) (t (n + 1)))
    (hf : program.function? f.function = some function) (hc : CountsDown function.body a i e) (hi : f.pointer = i)
    (h0 : t 0 = f :: rest) (hleft : ∀ j < m + 1, ((· - 1)^[j] (f.readLocal a) == 0) = false) (hr : r < e - i) :
    t (m * (e - i + 1) + (r + 1)) =
      (((CallFrame.round function.body a i e)^[m] f).pass function.body a i r).placed (i + 1 + r)
        (⟨i, e, .loop⟩ :: f.blocks) :: rest := by
  have halters := CallFrame.alters_iterate function.body a i e f m
  have hcounter := CallFrame.readLocal_iterate hc f m
  have hstart := rounds_of_steps ht hf hc hi h0 fun j hj => hleft j (Nat.lt_succ_of_lt hj)
  have hpass := pass_of_steps ht ((congrArg program.function? halters.function_eq).trans hf) hc
    (halters.pointer_eq.trans hi) hstart (by rw [hcounter]; exact hleft m (Nat.lt_succ_self m)) hr
  rw [halters.blocks_eq] at hpass
  exact hpass

/-- A thread whose counter never comes to zero is somewhere from the countdown to the close. -/
theorem stays_within (ht : ∀ n, Steps limits program (t n) (t (n + 1)))
    (hf : program.function? f.function = some function) (hc : CountsDown function.body a i e) (hi : f.pointer = i)
    (h0 : t 0 = f :: rest) (hnever : ∀ j, ((· - 1)^[j] (f.readLocal a) == 0) = false) (n : Nat) :
    ∃ g, t n = g :: rest ∧ i ≤ g.pointer ∧ g.pointer ≤ e := by
  have hlt := hc.lt
  have hdiv : n / (e - i + 1) * (e - i + 1) + n % (e - i + 1) = n := Nat.div_add_mod' n _
  have hmod : n % (e - i + 1) < e - i + 1 := Nat.mod_lt n (Nat.succ_pos _)
  cases hr : n % (e - i + 1) with
  | zero =>
    have hstart := rounds_of_steps ht hf hc hi h0 fun j (_ : j < n / (e - i + 1)) => hnever j
    rw [hr, Nat.add_zero] at hdiv
    rw [hdiv] at hstart
    have hpointer := (CallFrame.alters_iterate function.body a i e f (n / (e - i + 1))).pointer_eq
    exact ⟨_, hstart, by omega, by omega⟩
  | succ r =>
    have hin := inside_of_steps ht hf hc hi h0 (fun j (_ : j < n / (e - i + 1) + 1) => hnever j)
      (show r < e - i by omega)
    rw [← hr, hdiv] at hin
    refine ⟨_, hin, ?_, ?_⟩
    · change i ≤ i + 1 + r
      omega
    · change i + 1 + r ≤ e
      omega

/-- Counted loops. Let a frame stand at a countdown whose block holds plain instructions that spare the counter.
After so many rounds the frame is at the countdown again, with nothing changed but locals and outputs, as that many
executions of the block make them, each after one was taken from the counter; within a round it goes through the
block instruction by instruction. If the counter comes to zero after `k` subtractions, for the first time, there are
`k` rounds, and in the next step the frame goes on behind the close with its blocks as they were. If it never does,
the frame stays within the block. All this is so whatever is on the board at each step, and whatever other threads
and the hosts do to it in between. -/
theorem countdown_runs (hf : program.function? f.function = some function)
    (hc : CountsDown function.body a i e) (hi : f.pointer = i) (h0 : t 0 = f :: rest)
    (ht : ∀ n, Steps limits program (t n) (t (n + 1))) :
    let left (m : Nat) : α := (· - 1)^[m] (f.readLocal a)
    let after (m : Nat) : CallFrame α := (CallFrame.round function.body a i e)^[m] f
    let inside (m r : Nat) : CallFrame α :=
      ((after m).pass function.body a i r).placed (i + 1 + r) (⟨i, e, .loop⟩ :: f.blocks)
    let period := e - i + 1
    (∀ m, f.Alters (after m) ∧ (after m).readLocal a = left m) ∧
    (∀ k, IsLeast {k | (left k == 0) = true} k →
      (∀ m < k, t (m * period) = after m :: rest ∧
        ∀ r < e - i, t (m * period + (r + 1)) = inside m r :: rest) ∧
      t (k * period) = after k :: rest ∧ t (k * period + 1) = (after k).placed (e + 1) f.blocks :: rest ∧
      ((after k).readLocal a == 0) = true) ∧
    ((∀ k, (left k == 0) = false) →
      (∀ m, t (m * period) = after m :: rest ∧
        ∀ r < e - i, t (m * period + (r + 1)) = inside m r :: rest) ∧
      ∀ n, ∃ g, t n = g :: rest ∧ i ≤ g.pointer ∧ g.pointer ≤ e) := by
  intro left after inside period
  have halters (m : Nat) : f.Alters (after m) := CallFrame.alters_iterate function.body a i e f m
  have hcounter (m : Nat) : (after m).readLocal a = left m := CallFrame.readLocal_iterate hc f m
  have hround (m : Nat) (hm : ∀ j < m + 1, (left j == 0) = false) : t (m * period) = after m :: rest ∧
      ∀ r < e - i, t (m * period + (r + 1)) = inside m r :: rest :=
    ⟨rounds_of_steps ht hf hc hi h0 fun j hj => hm j (Nat.lt_succ_of_lt hj),
      fun r hr => inside_of_steps ht hf hc hi h0 hm hr⟩
  refine ⟨fun m => ⟨halters m, hcounter m⟩, fun k hk => ?_, fun hnever => ⟨fun m => ?_, fun n => ?_⟩⟩
  · have hbefore (j : Nat) (hj : j < k) : (left j == 0) = false := by
      by_contra hzero
      exact absurd (hk.2 (Bool.of_not_eq_false hzero)) (Nat.not_le.2 hj)
    have hend := rounds_of_steps ht hf hc hi h0 hbefore
    refine ⟨fun m hm => hround m fun j hj => hbefore j (by omega), hend, ?_⟩
    have hstep := ht (k * period)
    rw [hend] at hstep
    have hzero : ((after k).readLocal a == 0) = true := by
      rw [hcounter]
      exact hk.1
    have hfunction : program.function? (after k).function = some function :=
      (congrArg program.function? (halters k).function_eq).trans hf
    have hleaves := hstep.leaves hfunction hc ((halters k).pointer_eq.trans hi) hzero
    rw [(halters k).blocks_eq] at hleaves
    exact ⟨hleaves, hzero⟩
  · exact hround m fun j _ => hnever j
  · exact stays_within ht hf hc hi h0 hnever n

end Rounds

/-- A sum of all counts is made and put out. -/
def tally : Function FrameOp :=
  ⟨.new 0, [.bare (.builtin .nop), ⟨.builtin .countdown, ⟨0, 0, 0⟩, .new 0⟩,
    ⟨.builtin .add, ⟨0, 1, 1⟩, .new 0⟩, ⟨.builtin .output, ⟨1, 2, 0⟩, .new 0⟩, .bare (.builtin .close)]⟩

/-- A frame at the countdown of the tally, inside another block. -/
def atTally (count : Float) : CallFrame Float :=
  ⟨.ofList [(0, count)], .ofList [(3, 1)], .empty, 0, 1, [⟨9, 9, .basic⟩]⟩

def noHost : Host Float FrameOp Unit := ⟨fun _ _ m s => (m, s)⟩

def tallies (count : Float) : Nat → Thread Float
  | 0 => [atTally count]
  | n + 1 => (step noHost .standard ⟨[tally]⟩ 1 (tallies count n) .blank ()).1

theorem countsDown_tally : CountsDown tally.body 0 1 4 where
  opener := ⟨_, rfl, rfl, rfl⟩
  close := ⟨_, rfl, rfl⟩
  matching := by decide
  inner j x hi he hx := by
    obtain rfl | rfl : j = 2 ∨ j = 3 := by omega
    · cases hx
      exact ⟨.add, rfl, rfl, by decide⟩
    · cases hx
      exact ⟨.output, rfl, rfl, by decide⟩

/-- A count of three takes thirteen steps. An infinite count never ends. -/
theorem countdown_runs_tally :
    CountsDown tally.body 0 1 4 ∧
    IsLeast {k | ((· - 1)^[k] ((atTally 3).readLocal 0) == 0) = true} 3 ∧
    tallies 3 13 = [⟨.ofList [(0, 0), (1, 3)], .ofList [(3, 1)], .ofList [(2, 3)], 0, 5, [⟨9, 9, .basic⟩]⟩] ∧
    ∀ n, ∃ g, tallies (1 / 0) n = [g] ∧ 1 ≤ g.pointer ∧ g.pointer ≤ 4 := by
  have hleast : IsLeast {k | ((· - 1)^[k] ((atTally 3).readLocal 0) == 0) = true} 3 := by
    constructor
    · decide +kernel
    · intro k hk
      by_contra hlt
      have hnone : ∀ j < 3, ((· - 1)^[j] ((atTally 3).readLocal 0) == 0) = false := by decide +kernel
      rw [Set.mem_ofPred_eq, hnone k (by omega)] at hk
      cases hk
  have hfunction (count : Float) :
      (⟨[tally]⟩ : Program FrameOp).function? (atTally count).function = some tally := rfl
  have hsteps (count : Float) (n : Nat) :
      Steps .standard ⟨[tally]⟩ (tallies count n) (tallies count (n + 1)) :=
    ⟨Unit, noHost, 1, .blank, (), rfl⟩
  have hnever (k : Nat) : ((· - 1)^[k] ((atTally (1 / 0)).readLocal 0) == 0) = false := by
    rw [Function.iterate_fixed (by decide +kernel)]
    decide +kernel
  refine ⟨countsDown_tally, hleast, ?_, ?_⟩
  · have hruns := countdown_runs (hfunction 3) countsDown_tally rfl rfl (hsteps 3)
    rw [((hruns.2.1 3 hleast).2.2.1 : tallies 3 13 = _)]
    decide +kernel
  · exact ((countdown_runs (hfunction (1 / 0)) countsDown_tally rfl rfl (hsteps (1 / 0))).2.2 hnever).2

end Thread

end Vivarium
