import Vivarium.FrameOp
import Vivarium.Scalar.Exact
import Vivarium.Proofs.Machine.Run
/-!
# Open blocks

The stack of open blocks is determined by the pointer: below the end of a body it holds exactly
the blocks that enclose the pointer, outermost first. At the end of the body the stack unwinds one
block a step, and then it holds some of the blocks without a close, the outer ones. Main statement:
this holds of every frame of every reachable machine, so that a close always ends the block that
it matches.
-/
namespace Vivarium

variable {α X σ : Type}

/-- The openers whose blocks enclose the place `p`, outermost first. -/
def enclosing (body : List (Instruction X)) (p : Nat) : List Nat :=
  (List.range p).filter fun i => opensAt body i && decide (p ≤ endOf body i)

/-- The openers whose blocks end with the body, outermost first. -/
def unclosed (body : List (Instruction X)) : List Nat :=
  (List.range body.length).filter fun i => opensAt body i && endOf body i == body.length

/-- The openers below `k` whose blocks reach as far as `p`, outermost first. -/
def reaching (body : List (Instruction X)) (k p : Nat) : List Nat :=
  (List.range k).filter fun i => opensAt body i && decide (p ≤ endOf body i)

/-- The stack of open blocks at `p`. Behind the last instruction it may have lost its top. -/
structure Nested (body : List (Instruction X)) (p : Nat) (blocks : List Block) : Prop where
  le_length : p ≤ body.length
  reverse_eq : ∃ k ≤ p, (p < body.length → k = p) ∧
    blocks.reverse = (reaching body k p).map (blockAt body)

variable {body : List (Instruction X)} {i j k m p q : Nat} {blocks : List Block} {b : Block}

/-! ## Lists of openers -/

theorem reaching_succ (body : List (Instruction X)) (k p : Nat) :
    reaching body (k + 1) p =
      reaching body k p ++ if opensAt body k && decide (p ≤ endOf body k) then [k] else [] := by
  simp [reaching, List.range_succ, List.filter_append, List.filter_singleton]

theorem mem_reaching : i ∈ reaching body k p ↔ i < k ∧ opensAt body i = true ∧ p ≤ endOf body i := by
  simp [reaching]

theorem reaching_congr
    (h : ∀ i < k, opensAt body i = true → (p ≤ endOf body i ↔ q ≤ endOf body i)) :
    reaching body k p = reaching body k q := by
  apply List.filter_congr
  intro i hi
  cases ho : opensAt body i with
  | false => rfl
  | true => simp [h i (List.mem_range.1 hi) ho]

/-- Places where no opener reaches `p` add nothing. -/
theorem reaching_extend (hkm : k ≤ m)
    (h : ∀ i, k ≤ i → i < m → opensAt body i = true → endOf body i < p) :
    reaching body m p = reaching body k p := by
  induction m with
  | zero => rw [show k = 0 by omega]
  | succ m ih =>
    by_cases hmk : m < k
    · rw [show k = m + 1 by omega]
    · have hnot : (opensAt body m && decide (p ≤ endOf body m)) = false := by
        cases ho : opensAt body m with
        | false => rfl
        | true => simpa using h m (Nat.le_of_not_lt hmk) (by omega) ho
      rw [reaching_succ, hnot, ih (Nat.le_of_not_lt hmk) fun i hki him => h i hki (by omega)]
      simp

/-- The innermost opener of a list, and what lies below it. -/
theorem exists_of_reverse_reaching {rest : List Nat} (h : (reaching body k p).reverse = i :: rest) :
    i < k ∧ opensAt body i = true ∧ p ≤ endOf body i ∧ rest.reverse = reaching body i p ∧
      ∀ j, i < j → j < k → opensAt body j = true → endOf body j < p := by
  induction k with
  | zero => simp [reaching] at h
  | succ k ih =>
    rw [reaching_succ] at h
    cases hk : opensAt body k && decide (p ≤ endOf body k) with
    | true =>
      simp only [hk, if_true, List.reverse_append, List.reverse_cons, List.reverse_nil,
        List.nil_append, List.singleton_append, List.cons.injEq] at h
      obtain ⟨rfl, rfl⟩ := h
      simp only [Bool.and_eq_true, decide_eq_true_eq] at hk
      exact ⟨Nat.lt_succ_self k, hk.1, hk.2, List.reverse_reverse _, fun j _ _ => by omega⟩
    | false =>
      simp only [hk, Bool.false_eq_true, if_false, List.append_nil] at h
      obtain ⟨hik, ho, hp, hr, hnone⟩ := ih h
      refine ⟨by omega, ho, hp, hr, fun j hij hj hoj => ?_⟩
      rcases Nat.lt_succ_iff_lt_or_eq.1 hj with hlt | rfl
      · exact hnone j hij hlt hoj
      · simpa [hoj] using hk

/-- From an opener on to just behind its end, the blocks around it stay the same. -/
theorem reaching_between (ho : opensAt body i = true) (hiq : i ≤ q)
    (hq : q ≤ Nat.min (endOf body i + 1) body.length) : reaching body i q = reaching body i i := by
  apply reaching_congr
  intro j hj hoj
  constructor
  · intro h
    omega
  · intro h
    have hne := endOf_ne (lt_length_of_opensAt hoj) ho
    have hn := endOf_nested hj (by omega) ho
    have hmin := Nat.le_min.1 hq
    omega

/-! ## The moves of a frame -/

theorem Nested.nil (body : List (Instruction X)) : Nested body 0 [] :=
  ⟨Nat.zero_le _, 0, Nat.le_refl 0, fun _ => rfl, rfl⟩

/-- Just behind a block, the open blocks are those around its opener. -/
theorem Nested.after (ho : opensAt body i = true)
    (hb : blocks.reverse = (reaching body i i).map (blockAt body)) :
    Nested body (Nat.min (endOf body i + 1) body.length) blocks := by
  have hi := lt_length_of_opensAt ho
  have hie := lt_endOf hi
  have hle := endOf_le body i
  by_cases he : endOf body i < body.length
  · have hq : Nat.min (endOf body i + 1) body.length = endOf body i + 1 := Nat.min_eq_left (by omega)
    rw [hq]
    refine ⟨by omega, endOf body i + 1, Nat.le_refl _, fun _ => rfl, ?_⟩
    have hnone : ∀ j, i ≤ j → j < endOf body i + 1 → opensAt body j = true →
        endOf body j < endOf body i + 1 := by
      intro j hij hj hoj
      by_cases hlt : j < endOf body i
      · rcases Nat.eq_or_lt_of_le hij with rfl | hij
        · omega
        · have := endOf_nested hij hlt hoj
          omega
      · have hne := endOf_ne hi hoj
        omega
    have hq' : endOf body i + 1 ≤ Nat.min (endOf body i + 1) body.length := by omega
    rw [hb, reaching_extend (show i ≤ endOf body i + 1 by omega) hnone,
      reaching_between ho (by omega) hq']
  · have hq : Nat.min (endOf body i + 1) body.length = body.length := Nat.min_eq_right (by omega)
    rw [hq]
    refine ⟨Nat.le_refl _, i, by omega, fun h => absurd h (Nat.lt_irrefl _), ?_⟩
    have hl : body.length ≤ Nat.min (endOf body i + 1) body.length := by omega
    rw [hb, reaching_between ho (by omega) hl]

/-- Back at an opener, the open blocks are those around it. -/
theorem Nested.back (ho : opensAt body i = true)
    (hb : blocks.reverse = (reaching body i i).map (blockAt body)) : Nested body i blocks :=
  ⟨Nat.le_of_lt (lt_length_of_opensAt ho), i, Nat.le_refl i, fun _ => rfl, hb⟩

/-- Around the innermost opener are the blocks below it on the stack. Blocks opened later are closed
again, unless the body has ended. -/
theorem Nested.pop (h : Nested body p (b :: blocks)) :
    ∃ i < p, opensAt body i = true ∧ p ≤ endOf body i ∧ b = blockAt body i ∧
      blocks.reverse = (reaching body i i).map (blockAt body) ∧
      (p < body.length → ∀ j, i < j → j < p → opensAt body j = true → endOf body j < p) := by
  obtain ⟨hp, k, hk, hkp, hr⟩ := h
  have hr' : b :: blocks = (reaching body k p).reverse.map (blockAt body) := by
    rw [List.map_reverse, ← hr, List.reverse_reverse]
  obtain ⟨i, rest, hir, rfl, rfl⟩ := List.map_eq_cons_iff.1 hr'.symm
  obtain ⟨hik, ho, hpe, hrest, hnone⟩ := exists_of_reverse_reaching hir
  have hip : i < p := Nat.lt_of_lt_of_le hik hk
  refine ⟨i, hip, ho, hpe, rfl, ?_, fun hl => hkp hl ▸ hnone⟩
  rw [← List.map_reverse, hrest,
    reaching_between ho (Nat.le_of_lt hip) (Nat.le_min.2 ⟨by omega, hp⟩)]

/-- At a close the innermost block is the one that ends there. -/
theorem Nested.endOf_eq_of_closesAt (h : Nested body p (b :: blocks))
    (hc : closesAt body p = true) : ∃ i < p, opensAt body i = true ∧ endOf body i = p ∧
      b = blockAt body i ∧ blocks.reverse = (reaching body i i).map (blockAt body) := by
  obtain ⟨i, hip, ho, hpe, hb, hr, hnone⟩ := h.pop
  rcases Nat.eq_or_lt_of_le hpe with he | hlt
  · exact ⟨i, hip, ho, he.symm, hb, hr⟩
  · obtain ⟨j, hij, hjp, hoj, hej⟩ := exists_endOf_eq hip hlt hc
    have := hnone (lt_length_of_closesAt hc) j hij hjp hoj
    omega

/-- Between two instructions the stack does not change. -/
theorem Nested.next (h : Nested body p blocks) (hl : p < body.length)
    (ho : opensAt body p = false) (hc : closesAt body p = false) : Nested body (p + 1) blocks := by
  obtain ⟨-, k, -, hkp, hr⟩ := h
  obtain rfl := hkp hl
  refine ⟨hl, k + 1, Nat.le_refl _, fun _ => rfl, ?_⟩
  have hcongr : reaching body k (k + 1) = reaching body k k := by
    apply reaching_congr
    intro i hi hoi
    constructor
    · intro he
      omega
    · intro he
      rcases Nat.eq_or_lt_of_le he with he | he
      · have hce := closesAt_endOf (lt_length_of_opensAt hoi) (by omega)
        rw [← he, hc] at hce
        exact absurd hce (by decide)
      · exact he
  rw [hr, reaching_succ, ho, hcongr]
  simp

/-- A close outside all blocks leaves the stack empty. -/
theorem Nested.stray (h : Nested body p []) (hc : closesAt body p = true) :
    Nested body (p + 1) [] := by
  have hl := lt_length_of_closesAt hc
  obtain ⟨-, k, -, hkp, hr⟩ := h
  obtain rfl := hkp hl
  refine ⟨hl, k + 1, Nat.le_refl _, fun _ => rfl, ?_⟩
  have hempty : reaching body k k = [] := by simpa using hr.symm
  have hnone : reaching body (k + 1) (k + 1) = [] := by
    apply List.eq_nil_iff_forall_not_mem.2
    intro i hi
    obtain ⟨hik, ho, he⟩ := mem_reaching.1 hi
    rcases Nat.lt_succ_iff_lt_or_eq.1 hik with hlt | rfl
    · have hm : i ∈ reaching body k k := mem_reaching.2 ⟨hlt, ho, by omega⟩
      rw [hempty] at hm
      cases hm
    · rw [closesAt_eq_false ho] at hc
      exact absurd hc (by decide)
  rw [hnone]
  rfl

/-- An opener puts its own block on top. -/
theorem Nested.enter (h : Nested body p blocks) (ho : opensAt body p = true) :
    Nested body (p + 1) (blockAt body p :: blocks) := by
  have hl := lt_length_of_opensAt ho
  have he := lt_endOf hl
  obtain ⟨-, k, -, hkp, hr⟩ := h
  obtain rfl := hkp hl
  refine ⟨hl, k + 1, Nat.le_refl _, fun _ => rfl, ?_⟩
  have hreach : (opensAt body k && decide (k + 1 ≤ endOf body k)) = true := by
    simp only [ho, Bool.true_and, decide_eq_true_eq]
    exact he
  rw [List.reverse_cons, hr, reaching_succ, hreach,
    reaching_between ho (Nat.le_succ k) (Nat.le_min.2 ⟨by omega, hl⟩)]
  simp

/-- Every move within a body keeps the stack in step with the pointer. -/
theorem Nested.flow {blocks' : List Block} (h : Nested body p blocks)
    (hf : Flow body p blocks q blocks') : Nested body q blocks' := by
  cases hf with
  | next hl ho hc => exact h.next hl ho hc
  | enter ho => exact h.enter ho
  | skip ho =>
    obtain ⟨-, k, -, hkp, hr⟩ := h
    obtain rfl := hkp (lt_length_of_opensAt ho)
    exact .after ho hr
  | stray hc => exact h.stray hc
  | close hc =>
    obtain ⟨i, -, ho, rfl, -, hr⟩ := h.endOf_eq_of_closesAt hc
    have hl := lt_length_of_closesAt hc
    have hq : Nat.min (endOf body i + 1) body.length = endOf body i + 1 := Nat.min_eq_left hl
    exact hq ▸ .after ho hr
  | again hc =>
    obtain ⟨i, -, ho, -, rfl, hr⟩ := h.endOf_eq_of_closesAt hc
    exact .back ho hr
  | leave =>
    obtain ⟨i, -, ho, -, rfl, hr, -⟩ := h.pop
    exact .after ho hr
  | expire hl =>
    obtain ⟨i, hip, ho, hpe, -, hr, -⟩ := h.pop
    have hi := Nat.le_of_lt hip
    rw [← reaching_between ho hi (Nat.le_min.2 ⟨by omega, h.le_length⟩)] at hr
    exact ⟨h.le_length, i, hi, fun hlt => absurd hlt (Nat.not_lt.2 hl), hr⟩
  | rewind =>
    obtain ⟨i, -, ho, -, rfl, hr, -⟩ := h.pop
    exact .back ho hr

/-! ## Threads and machines -/

/-- The blocks of a frame, as its pointer determines them. -/
structure CallFrame.Structured (body : List (Instruction X)) (f : CallFrame α) : Prop where
  pointer_le : f.pointer ≤ body.length
  inside : f.pointer < body.length →
    f.blocks.reverse = (enclosing body f.pointer).map (blockAt body)
  atEnd : f.pointer = body.length → f.blocks.reverse <+: (unclosed body).map (blockAt body)
  /-- A close that is about to execute ends the innermost block. -/
  close_matched : closesAt body f.pointer = true → ∀ b rest, f.blocks = b :: rest →
    ∃ i, opensAt body i = true ∧ endOf body i = f.pointer ∧ b = blockAt body i
  close_stray : closesAt body f.pointer = true →
    (∀ i, opensAt body i = true → endOf body i ≠ f.pointer) → f.blocks = []

/-- At the end of the body, an opener reaches as far as the pointer when it has no close. -/
theorem reaching_length (body : List (Instruction X)) :
    reaching body body.length body.length = unclosed body := by
  apply List.filter_congr
  intro i _
  have hle := endOf_le body i
  have he : decide (body.length ≤ endOf body i) = (endOf body i == body.length) := by
    rw [Bool.eq_iff_iff, decide_eq_true_eq, beq_iff_eq]
    omega
  rw [he]

theorem reaching_mono (body : List (Instruction X)) (hkm : k ≤ m) (p : Nat) :
    reaching body k p <+: reaching body m p := by
  apply List.IsPrefix.filter
  obtain ⟨d, rfl⟩ := Nat.exists_eq_add_of_le hkm
  rw [List.range_add]
  exact List.prefix_append _ _

theorem Nested.structured {f : CallFrame α} (h : Nested body f.pointer f.blocks) :
    f.Structured body := by
  have hmatch : closesAt body f.pointer = true → ∀ b rest, f.blocks = b :: rest →
      ∃ i, opensAt body i = true ∧ endOf body i = f.pointer ∧ b = blockAt body i := by
    intro hc b rest hb
    obtain ⟨i, -, ho, he, hbi, -⟩ := (hb ▸ h).endOf_eq_of_closesAt hc
    exact ⟨i, ho, he, hbi⟩
  obtain ⟨hp, k, hk, hkp, hr⟩ := h
  constructor
  · exact hp
  · intro hl
    rw [hr, hkp hl]
    rfl
  · intro he
    rw [hr, he, ← reaching_length]
    exact (reaching_mono body (he ▸ hk) body.length).map (blockAt body)
  · exact hmatch
  · intro hc hnone
    cases hb : f.blocks with
    | nil => rfl
    | cons b rest =>
      obtain ⟨i, ho, he, -⟩ := hmatch hc b rest hb
      exact absurd he (hnone i ho)

/-- The frames of a thread run functions of the program, and their blocks are nested. -/
def Thread.Nested (program : Program X) (t : Thread α) : Prop :=
  ∀ f ∈ t, ∃ function, program.function? f.function = some function ∧
    Vivarium.Nested function.body f.pointer f.blocks

/-- A return uncovers a frame whose blocks are nested. -/
theorem Thread.Nested.ret {program : Program X} {t : Thread α} (h : Thread.Nested program t) :
    Thread.Nested program t.ret := by
  match t, h with
  | [], h => exact h
  | [_], _ => exact fun f hf => by cases hf
  | done :: caller :: rest, h =>
    intro f hf
    cases hf with
    | head => exact h caller (List.mem_cons_of_mem done List.mem_cons_self)
    | tail _ hf => exact h f (List.mem_cons_of_mem done (List.mem_cons_of_mem caller hf))

theorem Thread.nested_enter {program : Program X} {callee : Nat} (inputs : Memory α)
    (h : ∃ function, program.function? callee = some function) :
    Thread.Nested program [.enter callee inputs] := by
  intro f hf
  obtain ⟨function, hfn⟩ := h
  rw [List.mem_singleton.1 hf]
  exact ⟨function, hfn, .nil _⟩

section Machines

variable [Scalar α]

/-- No move of a thread breaks the nesting. -/
theorem Thread.Nested.moves {limits : Limits α} {program : Program X} {b : Board α}
    {t u : Thread α} (h : Thread.Nested program t) (hb : b.matcher.Dispatches program)
    (hm : Thread.Moves limits program b t u) : Thread.Nested program u := by
  have flow {f g : CallFrame α} {rest : Thread α} {function : Function X}
      (h : Thread.Nested program (f :: rest)) (hfn : program.function? f.function = some function)
      (hfg : f.Flows function.body g) : Thread.Nested program (g :: rest) := by
    intro f' hf'
    cases hf' with
    | head =>
      obtain ⟨function', hfn', hn⟩ := h f List.mem_cons_self
      obtain rfl : function' = function := Option.some.inj (hfn'.symm.trans hfn)
      exact ⟨function', hfg.1 ▸ hfn, hn.flow hfg.2⟩
    | tail _ hf' => exact h f' (List.mem_cons_of_mem f hf')
  cases hm with
  | gone => exact fun f hf => by cases hf
  | flow hfn hfg => exact flow h hfn hfg
  | call hfn hfg _ hr =>
    intro f' hf'
    cases hf' with
    | head => exact Thread.nested_enter _ (hb.resolve hr) _ List.mem_cons_self
    | tail _ hf' => exact flow h hfn hfg f' hf'
  | ret => exact h.ret

/-- The registry dispatches into the program, and the threads that wait to be forked are nested. -/
structure Board.Nests (program : Program X) (b : Board α) : Prop where
  dispatches : b.matcher.Dispatches program
  pending : ∀ t ∈ b.pending, Thread.Nested program t

/-- No step of a thread breaks the nesting of those that wait. -/
theorem Board.Nests.follows {limits : Limits α} {live : Nat} {program : Program X} {b c : Board α}
    (h : b.Nests program) (hf : b.Follows limits live c) : c.Nests program := by
  constructor
  · exact h.dispatches.akin hf.akin
  · intro t ht
    cases hf.pending with
    | inl he =>
      rw [he] at ht
      exact h.pending t ht
    | inr he =>
      obtain ⟨affinity, callee, inputs, hr, -, he⟩ := he
      rw [he] at ht
      cases List.mem_append.1 ht with
      | inl ht => exact h.pending t ht
      | inr ht =>
        rw [List.mem_singleton.1 ht]
        exact Thread.nested_enter inputs (h.dispatches.resolve hr)

namespace Machine

/-- Every thread of a pass stays nested, and those it forks are. -/
theorem nested_advance {m : Machine α X} (hc : m.Coherent)
    (h : ∀ t ∈ m.threads, Thread.Nested m.program t) (host : Host α X σ) (s : σ) :
    ∀ t ∈ (m.advance host s).1.threads, Thread.Nested m.program t := by
  have hboard : m.board.Nests m.program := by
    constructor
    · exact hc.dispatches
    · intro t ht
      rw [hc.pending] at ht
      cases ht
  have hp := Board.pass_induction host m.limits m.program m.threads.length
    (P := Thread.Nested m.program) (I := fun b _ => b.Nests m.program)
    (fun t b s ht hb => by
      obtain ⟨hmv, hfo⟩ := Thread.moves_step host m.limits m.program m.threads.length t b s
      exact ⟨ht.moves hb.dispatches hmv, hb.follows hfo⟩)
    m.threads m.board s h hboard
  intro t ht
  cases List.mem_append.1 ht with
  | inl ht => exact hp.1 t (List.mem_filter.1 ht).1
  | inr ht => exact hp.2.pending t (List.mem_of_mem_take ht)

theorem nested_trigger {m : Machine α X} (hc : m.Coherent)
    (h : ∀ t ∈ m.threads, Thread.Nested m.program t) (affinity : Tag) (payload : Memory α) :
    ∀ t ∈ (m.trigger affinity payload).threads, Thread.Nested m.program t := by
  rcases m.trigger_cases affinity payload with he | ⟨callee, hr, -, he⟩
  · rw [he]
    exact h
  · intro t ht
    rw [he] at ht
    cases List.mem_append.1 ht with
    | inl ht => exact h t ht
    | inr ht =>
      rw [List.mem_singleton.1 ht]
      exact Thread.nested_enter payload (hc.dispatches.resolve hr)

/-- In every machine that can be reached all blocks are nested. -/
theorem Reachable.nested {m : Machine α X} (h : m.Reachable) :
    ∀ t ∈ m.threads, Thread.Nested m.program t := by
  induction h with
  | new rng limits => exact fun t ht => by cases ht
  | @load m program _ hnone _ =>
    intro t ht
    have ht' : t ∈ m.threads := ht
    rw [hnone] at ht'
    cases ht'
  | trigger affinity payload hm ih =>
    rw [program_trigger]
    exact nested_trigger hm.coherent ih affinity payload
  | enqueue events _ ih => exact ih
  | @drain m hm ih =>
    refine (handle_induction (I := fun n => n.Coherent ∧
      ∀ t ∈ n.threads, Thread.Nested n.program t) ?_ { m with events := [] } m.events
      ⟨⟨?_, ?_⟩, ih⟩).2
    · intro n affinity payload hn
      rw [program_trigger]
      exact ⟨hn.1.trigger affinity payload, nested_trigger hn.1 hn.2 affinity payload⟩
    · exact hm.coherent.dispatches
    · exact hm.coherent.pending
  | advance host s hm ih => exact nested_advance hm.coherent ih host s
  | reset _ _ => exact fun t ht => by cases ht
  | tune matcher _ _ ih => exact ih
  | reseed rng _ ih => exact ih

/-- Structured control flow. In every reachable machine the pointer of a frame determines its open
blocks, so that a close ends the block it matches, and one that matches none finds none open. -/
theorem structured_of_reachable {m : Machine α X} (h : m.Reachable) {t : Thread α}
    (ht : t ∈ m.threads) {f : CallFrame α} (hf : f ∈ t) :
    ∃ function, m.program.function? f.function = some function ∧ f.Structured function.body := by
  obtain ⟨function, hfn, hn⟩ := h.nested t ht f hf
  exact ⟨function, hfn, hn.structured⟩

def nestedLoop : Program FrameOp :=
  ⟨[⟨.new 0, [⟨.builtin .setMem, ⟨0, 1, 0⟩, .new 0⟩, .bare (.builtin .whileBlock),
    .bare (.builtin .ifBlock), .bare (.builtin .close), .bare (.builtin .close)]⟩]⟩

def inNestedLoop : Machine Rat FrameOp :=
  ((Machine.new (.ofSeed 0) ⟨1, 1, 0, 0⟩).load nestedLoop).trigger (.new 0) .empty

def idle : Host Rat FrameOp Unit := ⟨fun _ _ w s => (w, s)⟩

/-- After three passes the thread stands in the conditional, which closes next. -/
theorem structured_nestedLoop :
    let m := (((inNestedLoop.process idle ()).1.process idle ()).1.process idle ()).1
    let f : CallFrame Rat := { CallFrame.enter 0 .empty with
      locals := Memory.empty.set 0 1, pointer := 3,
      blocks := [⟨2, 3, .basic⟩, ⟨1, 4, .loop⟩] }
    [f] ∈ m.threads ∧
      ∃ function, m.program.function? f.function = some function ∧ f.Structured function.body := by
  intro m f
  have hm : m.Reachable := by
    refine Reachable.process (Reachable.process (Reachable.process ?_ idle ()) idle ()) idle ()
    exact .trigger _ _ (.load _ (.new _ _) rfl)
  have ht : [f] ∈ m.threads := by decide +kernel
  exact ⟨ht, structured_of_reachable hm ht List.mem_cons_self⟩

end Machine

end Machines

end Vivarium
