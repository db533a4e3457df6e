import Vivarium.Machine.Process
import Vivarium.Proofs.Affinity.Ranking
import Vivarium.Proofs.Program.Brackets
/-!
# What one step can do

One step of a thread moves the pointer and the open blocks of its innermost frame, calls, returns
or dies, and it leaves the board as it was but for its memory, its generator, its regulators and
at most one forked thread. Nothing else is known of a step below, so a property that survives each
of these moves survives every program.
-/
namespace Vivarium

variable {α X σ : Type}

def Op.loops : Op X → Bool
  | .builtin .whileBlock => true
  | .builtin .countdown => true
  | _ => false

def loopsAt (body : List (Instruction X)) (i : Nat) : Bool := body[i]?.any (·.op.loops)

def blockAt (body : List (Instruction X)) (i : Nat) : Block :=
  ⟨i, endOf body i, if loopsAt body i then .loop else .basic⟩

/-- From one pointer and stack of open blocks to the next, within one body. -/
inductive Flow (body : List (Instruction X)) : Nat → List Block → Nat → List Block → Prop where
  | next {p blocks} : p < body.length → opensAt body p = false → closesAt body p = false →
      Flow body p blocks (p + 1) blocks
  | enter {p blocks} : opensAt body p = true →
      Flow body p blocks (p + 1) (blockAt body p :: blocks)
  | skip {p blocks} : opensAt body p = true →
      Flow body p blocks (Nat.min (endOf body p + 1) body.length) blocks
  | stray {p} : closesAt body p = true → Flow body p [] (p + 1) []
  | close {p b blocks} : closesAt body p = true → b.kind = .basic →
      Flow body p (b :: blocks) (p + 1) blocks
  | again {p b blocks} : closesAt body p = true → b.kind = .loop →
      Flow body p (b :: blocks) b.opener blocks
  | leave {p b blocks} : p < body.length → opensAt body p = false → closesAt body p = false →
      Flow body p (b :: blocks) (Nat.min (b.close + 1) body.length) blocks
  | expire {p b blocks} : body.length ≤ p → b.kind = .basic →
      Flow body p (b :: blocks) p blocks
  | rewind {p b blocks} : body.length ≤ p → b.kind = .loop →
      Flow body p (b :: blocks) b.opener blocks

def CallFrame.Flows (body : List (Instruction X)) (f g : CallFrame α) : Prop :=
  g.function = f.function ∧ Flow body f.pointer f.blocks g.pointer g.blocks

/-- The moves of a thread. A thread whose function is not in the program dies, like one that
terminates. -/
inductive Thread.Moves [Scalar α] (limits : Limits α) (program : Program X) (b : Board α) :
    Thread α → Thread α → Prop where
  | gone {t} : Thread.Moves limits program b t []
  | flow {f g rest function} : program.function? f.function = some function →
      f.Flows function.body g → Thread.Moves limits program b (f :: rest) (g :: rest)
  | call {f g rest function affinity callee} : program.function? f.function = some function →
      f.Flows function.body g → rest.length + 1 < limits.maxCallDepth →
      b.resolve? affinity = some callee →
      Thread.Moves limits program b (f :: rest) (.enter callee g.locals :: g :: rest)
  | ret {f rest} : Thread.Moves limits program b (f :: rest) (Thread.ret (f :: rest))

/-- The outputs of the innermost frame are all that its end looks at. -/
theorem Thread.ret_cons (f g : CallFrame α) (rest : Thread α) (h : g.outputs = f.outputs) :
    Thread.ret (g :: rest) = Thread.ret (f :: rest) := by
  cases rest with
  | nil => rfl
  | cons caller rest => simp only [Thread.ret, h]

/-- Registries that agree in all but regulators and threshold. -/
def Registry.Akin {V : Type} (r s : Registry α V) : Prop :=
  s.next = r.next ∧ s.entries.map (fun e => (e.handle, e.tag, e.value)) =
    r.entries.map (fun e => (e.handle, e.tag, e.value))

/-- How a step leaves the board. -/
structure Board.Follows [Scalar α] (limits : Limits α) (live : Nat) (b c : Board α) : Prop where
  akin : b.matcher.Akin c.matcher
  pending : c.pending = b.pending ∨ ∃ affinity callee inputs,
    b.resolve? affinity = some callee ∧ live + b.pending.length < limits.maxThreads ∧
      c.pending = b.pending ++ [[.enter callee inputs]]

namespace Registry

variable {V : Type}

theorem Akin.refl (r : Registry α V) : r.Akin r := ⟨rfl, rfl⟩

theorem Akin.trans {r s t : Registry α V} (h : r.Akin s) (h' : s.Akin t) : r.Akin t :=
  ⟨h'.1.trans h.1, h'.2.trans h.2⟩

/-- Rewriting regulators in place keeps handles, tags and values. -/
theorem akin_map (r : Registry α V) (f : Entry α V → Entry α V)
    (hf : ∀ e, ((f e).handle, (f e).tag, (f e).value) = (e.handle, e.tag, e.value)) :
    r.Akin { r with entries := r.entries.map f } := by
  refine ⟨rfl, ?_⟩
  simp only [List.map_map]
  exact List.map_congr_left fun e _ => hf e

theorem akin_modify? {r s : Registry α V} {h : Handle} {f : Entry α V → Entry α V}
    (hf : ∀ e, ((f e).handle, (f e).tag, (f e).value) = (e.handle, e.tag, e.value))
    (hs : r.modify? h f = some s) : r.Akin s := by
  simp only [modify?, Option.ite_none_right_eq_some, Option.some.injEq] at hs
  rw [← hs.2]
  apply akin_map
  intro e
  by_cases he : e.handle == h <;> simp only [he, if_true, if_false, Bool.false_eq_true, hf]

/-- The values of akin registries are the same. -/
theorem Akin.exists_value {r s : Registry α V} (h : r.Akin s) {e : Entry α V}
    (he : e ∈ s.entries) : ∃ d ∈ r.entries, d.value = e.value := by
  have hm : (e.handle, e.tag, e.value) ∈ r.entries.map (fun e => (e.handle, e.tag, e.value)) := by
    rw [← h.2]
    exact List.mem_map_of_mem he
  obtain ⟨d, hd, hde⟩ := List.mem_map.1 hm
  exact ⟨d, hd, by simp_all⟩

end Registry

/-! ## Instructions -/

namespace CallFrame

theorem closeBlock_basic {f : CallFrame α} {b : Block} {rest : List Block}
    (hb : f.blocks = b :: rest) (hk : b.kind = .basic) :
    f.closeBlock = { f with blocks := rest } := by simp [closeBlock, hb, hk]

/-- At its close a loop goes back to its opener. -/
theorem closeBlock_loop {f : CallFrame α} {b : Block} {rest : List Block}
    (hb : f.blocks = b :: rest) (hk : b.kind = .loop) :
    f.closeBlock = { f with blocks := rest, pointer := b.opener } := by simp [closeBlock, hb, hk]

variable {body : List (Instruction X)} {f g : CallFrame α} {i : Instruction X}

/-- An instruction that neither opens nor closes steps on, whatever it stores. -/
theorem flows_next (hi : body[f.pointer]? = some i) (ho : i.op.opensBlock = false)
    (hc : i.op.isClose = false) (hf : g.function = f.function) (hp : g.pointer = f.pointer + 1)
    (hb : g.blocks = f.blocks) : f.Flows body g := by
  refine ⟨hf, ?_⟩
  rw [hp, hb]
  obtain ⟨hl, -⟩ := List.getElem?_eq_some_iff.1 hi
  exact .next hl (by simp [opensAt, hi, ho]) (by simp [closesAt, hi, hc])

theorem flows_openBlock {kind : BlockKind} (hi : body[f.pointer]? = some i)
    (ho : i.op.opensBlock = true) (hk : kind = if i.op.loops then .loop else .basic)
    (hf : g.function = f.function) (hp : g.pointer = f.pointer + 1) (hb : g.blocks = f.blocks)
    (enter : Bool) : f.Flows body (g.openBlock body kind enter) := by
  have hopen : opensAt body f.pointer = true := by simp [opensAt, hi, ho]
  have hblock : blockAt body f.pointer = ⟨f.pointer, endOfBlock body g.pointer, kind⟩ := by
    simp [blockAt, endOf, loopsAt, hi, hk, hp]
  unfold openBlock
  cases enter with
  | true =>
    refine ⟨hf, ?_⟩
    simp only [if_true, hp, Nat.add_sub_cancel, hb]
    rw [hp] at hblock
    exact hblock ▸ .enter hopen
  | false =>
    refine ⟨hf, ?_⟩
    simp only [Bool.false_eq_true, if_false, leave, hp, hb]
    exact .skip hopen

theorem flows_closeBlock (hi : body[f.pointer]? = some i) (hc : i.op.isClose = true)
    (hf : g.function = f.function) (hp : g.pointer = f.pointer + 1) (hb : g.blocks = f.blocks) :
    f.Flows body g.closeBlock := by
  have hclose : closesAt body f.pointer = true := by simp [closesAt, hi, hc]
  cases hs : f.blocks with
  | nil =>
    have hg : g.closeBlock = g := by simp [closeBlock, hb, hs]
    rw [hg]
    refine ⟨hf, ?_⟩
    rw [hp, hb, hs]
    exact .stray hclose
  | cons b rest =>
    cases hk : b.kind with
    | basic =>
      rw [closeBlock_basic (hb.trans hs) hk]
      refine ⟨hf, ?_⟩
      rw [hs, show g.pointer = f.pointer + 1 from hp]
      exact .close hclose hk
    | loop =>
      rw [closeBlock_loop (hb.trans hs) hk]
      refine ⟨hf, ?_⟩
      rw [hs]
      exact .again hclose hk

theorem flows_breakBlock (hi : body[f.pointer]? = some i) (ho : i.op.opensBlock = false)
    (hc : i.op.isClose = false) (hf : g.function = f.function) (hp : g.pointer = f.pointer + 1)
    (hb : g.blocks = f.blocks) : f.Flows body (g.breakBlock body.length) := by
  cases hs : f.blocks with
  | nil =>
    have hg : g.breakBlock body.length = g := by simp [breakBlock, hb, hs]
    rw [hg]
    exact flows_next hi ho hc hf hp hb
  | cons b rest =>
    have hg : g.breakBlock body.length = { g with blocks := rest }.leave body.length b.close := by
      simp [breakBlock, hb, hs]
    rw [hg]
    obtain ⟨hl, -⟩ := List.getElem?_eq_some_iff.1 hi
    refine ⟨hf, ?_⟩
    rw [hs]
    exact .leave hl (by simp [opensAt, hi, ho]) (by simp [closesAt, hi, hc])

/-- Behind the end of the body the innermost block ends as at a close. -/
theorem flows_unwind (hl : body.length ≤ f.pointer) (hb : f.blocks ≠ []) :
    f.Flows body f.closeBlock := by
  cases hs : f.blocks with
  | nil => exact absurd hs hb
  | cons b rest =>
    cases hk : b.kind with
    | basic =>
      rw [closeBlock_basic hs hk]
      refine ⟨rfl, ?_⟩
      rw [hs]
      exact .expire hl hk
    | loop =>
      rw [closeBlock_loop hs hk]
      refine ⟨rfl, ?_⟩
      rw [hs]
      exact .rewind hl hk

end CallFrame

/-! ## The board -/

variable [Scalar α]

theorem Board.mem_of_resolve?_eq_some {b : Board α} {affinity : Tag} {callee : Nat}
    (h : b.resolve? affinity = some callee) : ∃ e ∈ b.matcher.entries, e.value = callee := by
  obtain ⟨e, he, hv⟩ := Option.map_eq_some_iff.1 h
  exact ⟨e, Registry.mem_of_best?_eq_some he, hv⟩

namespace Board.Follows

variable {limits : Limits α} {live : Nat} {b c : Board α}

theorem refl (limits : Limits α) (live : Nat) (b : Board α) : b.Follows limits live b :=
  ⟨.refl _, .inl rfl⟩

/-- Memory and generator are of no concern. -/
theorem of_akin (hm : b.matcher.Akin c.matcher) (hp : c.pending = b.pending) :
    b.Follows limits live c := ⟨hm, .inl hp⟩

theorem regulate (b : Board α) (affinity : Tag)
    {change : Registry α Nat → Handle → Option (Registry α Nat)}
    (hc : ∀ r h s, change r h = some s → r.Akin s) :
    b.Follows limits live (b.regulate affinity change) := by
  unfold Board.regulate
  cases b.matcher.matchBest? affinity with
  | none => exact refl limits live b
  | some h =>
    refine of_akin ?_ rfl
    change b.matcher.Akin ((change b.matcher h).getD b.matcher)
    cases hs : change b.matcher h with
    | none => exact .refl _
    | some s => exact hc _ _ _ hs

theorem fork (affinity : Tag) (f : CallFrame α) :
    b.Follows limits live (b.fork limits live affinity f) := by
  unfold Board.fork
  split
  · exact refl limits live b
  · next hroom =>
    cases hr : b.resolve? affinity with
    | none => exact refl limits live b
    | some callee => exact ⟨.refl _, .inr ⟨affinity, callee, f.locals, hr, by omega, rfl⟩⟩

end Board.Follows

/-! ## Steps -/

section Instructions

variable {body : List (Instruction X)} {f g : CallFrame α} {i : Instruction X}

/-- Every instruction of the machine itself moves its frame within one body. -/
theorem flows_perform {op : Builtin} (limits : Limits α) (b : Board α)
    (hi : body[f.pointer]? = some i) (hop : i.op = .builtin op) (hf : g.function = f.function)
    (hp : g.pointer = f.pointer + 1) (hb : g.blocks = f.blocks) :
    f.Flows body (perform limits body op i.args i.affinity g b).1 := by
  have keep (ho : op.opensBlock = false) (hc : op ≠ .close) {h : CallFrame α}
      (hf : h.function = f.function) (hp : h.pointer = f.pointer + 1) (hb : h.blocks = f.blocks) :
      f.Flows body h := by
    apply CallFrame.flows_next hi _ _ hf hp hb
    · simpa [hop, Op.opensBlock] using ho
    · cases op <;> simp_all [Op.isClose]
  have opens (ho : op.opensBlock = true) : i.op.opensBlock = true := by
    simpa [hop, Op.opensBlock] using ho
  have plain (ho : op.opensBlock = false) : i.op.opensBlock = false := by
    simpa [hop, Op.opensBlock] using ho
  cases op with
  | ifBlock => exact CallFrame.flows_openBlock hi (opens rfl) (by simp [hop, Op.loops]) hf hp hb _
  | whileBlock =>
    exact CallFrame.flows_openBlock hi (opens rfl) (by simp [hop, Op.loops]) hf hp hb _
  | countdown =>
    refine CallFrame.flows_openBlock hi (opens rfl) (by simp [hop, Op.loops]) ?_ ?_ ?_ _
    · split <;> exact hf
    · split <;> exact hp
    · split <;> exact hb
  | close => exact CallFrame.flows_closeBlock hi (by simp [hop, Op.isClose]) hf hp hb
  | breakBlock =>
    exact CallFrame.flows_breakBlock hi (plain rfl) (by simp [hop, Op.isClose]) hf hp hb
  | div =>
    simp only [perform]
    split
    · exact keep rfl (by simp) hf hp hb
    · exact keep rfl (by simp) hf hp hb
  | mod =>
    simp only [perform, CallFrame.remainder]
    split
    · exact keep rfl (by simp) hf hp hb
    · exact keep rfl (by simp) hf hp hb
  | _ => exact keep rfl (by simp) hf hp hb

/-- Every instruction of the machine itself leaves the board as a step may. -/
theorem follows_perform {limits : Limits α} {live : Nat} (op : Builtin) (args : Operands)
    (affinity : Tag) (f : CallFrame α) (b : Board α) :
    b.Follows limits live (perform limits body op args affinity f b).2 := by
  cases op with
  | adjRegulator | setRegulator =>
    simp only [perform]
    apply Board.Follows.regulate
    intro r h s hs
    refine Registry.akin_modify? ?_ hs
    exact fun e => rfl
  | _ => exact .of_akin (.refl _) rfl

end Instructions

theorem Thread.moves_call {limits : Limits α} {program : Program X} {b : Board α}
    {f g : CallFrame α} {rest : Thread α} {function : Function X}
    (hf : program.function? f.function = some function) (hfg : f.Flows function.body g)
    (affinity : Tag) :
    Thread.Moves limits program b (f :: rest) (Thread.call limits b affinity (g :: rest)) := by
  unfold Thread.call
  simp only
  split
  · exact .flow hf hfg
  · next hd =>
    cases hr : b.resolve? affinity with
    | none => exact .flow hf hfg
    | some callee => exact .call hf hfg (by omega) hr

/-- A step is one of the moves, and leaves the board as the moves do. -/
theorem Thread.moves_step (host : Host α X σ) (limits : Limits α) (program : Program X)
    (live : Nat) (t : Thread α) (b : Board α) (s : σ) :
    Thread.Moves limits program b t (t.step host limits program live b s).1 ∧
      b.Follows limits live (t.step host limits program live b s).2.1 := by
  cases t with
  | nil => exact ⟨.gone, .refl ..⟩
  | cons f rest =>
    cases hf : program.function? f.function with
    | none =>
      simp only [Thread.step, hf]
      exact ⟨.gone, .refl ..⟩
    | some function =>
      cases hi : function.body[f.pointer]? with
      | none =>
        simp only [Thread.step, hf, hi]
        refine ⟨?_, .refl ..⟩
        split
        · exact .ret
        · next hb =>
          exact .flow hf (CallFrame.flows_unwind (List.getElem?_eq_none_iff.1 hi) (by simpa using hb))
      | some i =>
        simp only [Thread.step, hf, hi]
        have step (ho : i.op.opensBlock = false) (hc : i.op.isClose = false) :
            f.Flows function.body { f with pointer := f.pointer + 1 } :=
          CallFrame.flows_next hi ho hc rfl rfl rfl
        split
        · next hop => exact ⟨moves_call hf (step (by simp [hop, Op.opensBlock, Builtin.opensBlock])
            (by simp [hop, Op.isClose])) _, .refl ..⟩
        · refine ⟨?_, .refl ..⟩
          simp only [ret_cons f { f with pointer := f.pointer + 1 } rest rfl]
          exact .ret
        · exact ⟨.gone, .refl ..⟩
        · next hop => exact ⟨.flow hf (step (by simp [hop, Op.opensBlock, Builtin.opensBlock])
            (by simp [hop, Op.isClose])), .fork ..⟩
        · next op _ _ _ _ hop => exact ⟨.flow hf (flows_perform limits b hi hop rfl rfl rfl),
            follows_perform op ..⟩
        · next x hop => exact ⟨.flow hf (CallFrame.flows_next hi (by simp [hop, Op.opensBlock])
            (by simp [hop, Op.isClose]) rfl rfl rfl), .of_akin (.refl _) rfl⟩

end Vivarium
