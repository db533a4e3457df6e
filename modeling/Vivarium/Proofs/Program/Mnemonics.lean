import Mathlib.Data.List.Induction
import Mathlib.Data.List.Nodup
import Std.Data.HashMap.Lemmas
import Std.Data.String.ToNat
import Vivarium.FrameOp
/-!
# Mnemonics

A library holds what was added to it in the order in which it was added, and under a mnemonic it finds what was
added last. No two operations share a mnemonic: the mnemonics without a level are all different and have no
hyphen, and one with a level is cut in two by its only hyphen. So what is written down by its mnemonic is
assembled as it was meant.
-/
namespace Vivarium

/-! ## Libraries -/

namespace Library

variable {X : Type} [Extension X] {name : String} {i : Nat}

theorem addAll_append (l : Library X) (base ops : List (Op X)) :
    l.addAll (base ++ ops) = (l.addAll base).addAll ops := List.foldl_append

theorem addAll_concat (ops : List (Op X)) (op : Op X) :
    empty.addAll (ops ++ [op]) = (empty.addAll ops).add op := addAll_append empty ops [op]

theorem entries_addAll (ops : List (Op X)) :
    (empty.addAll ops).entries = (ops.map Descriptor.ofOp).toArray := by
  induction ops using List.reverseRecOn with
  | nil => rfl
  | append_singleton ops op ih =>
    rw [addAll_concat, add, ih, List.push_toArray, List.map_append]
    rfl

theorem get?_addAll (ops : List (Op X)) (i : Nat) :
    (empty.addAll ops).get? i = ops[i]?.map Descriptor.ofOp := by
  rw [get?, entries_addAll, List.getElem?_toArray, List.getElem?_map]

/-- The index leads to places that are taken. -/
theorem lt_of_index (ops : List (Op X)) (h : (empty.addAll ops).index[name]? = some i) :
    i < (empty.addAll ops).entries.size := by
  induction ops using List.reverseRecOn with
  | nil =>
    change (∅ : Std.HashMap String Nat)[name]? = some i at h
    rw [Std.HashMap.getElem?_empty] at h
    cases h
  | append_singleton ops op ih =>
    rw [addAll_concat, add] at h ⊢
    rw [Std.HashMap.getElem?_insert] at h
    rw [Array.size_push]
    split at h
    · obtain rfl := Option.some.inj h
      exact Nat.lt_succ_self _
    · exact Nat.lt_succ_of_lt (ih h)

/-- What is added last is found under its mnemonic and hides nothing else. -/
theorem lookup?_addAll_concat (ops : List (Op X)) (op : Op X) (name : String) :
    (empty.addAll (ops ++ [op])).lookup? name =
      if op.name = name then some (.ofOp op) else (empty.addAll ops).lookup? name := by
  rw [addAll_concat, add, lookup?, Std.HashMap.getElem?_insert]
  by_cases hname : op.name = name
  · rw [if_pos (beq_iff_eq.2 hname), if_pos hname, Option.bind_some, Array.getElem?_push_size]
  · rw [if_neg (by rwa [beq_iff_eq]), if_neg hname, lookup?]
    refine Option.bind_congr fun i hi => ?_
    rw [Array.getElem?_push_lt (lt_of_index ops hi), Array.getElem?_eq_getElem (lt_of_index ops hi)]

/-- Of several operations with one name the last is found. -/
theorem lookup?_addAll (ops : List (Op X)) (name : String) :
    (empty.addAll ops).lookup? name =
      (ops.reverse.find? fun op => op.name == name).map Descriptor.ofOp := by
  induction ops using List.reverseRecOn with
  | nil =>
    change (∅ : Std.HashMap String Nat)[name]?.bind _ = none
    rw [Std.HashMap.getElem?_empty]
    rfl
  | append_singleton ops op ih =>
    rw [lookup?_addAll_concat, ih, List.reverse_append, List.reverse_singleton, List.singleton_append,
      List.find?_cons]
    by_cases hname : op.name = name
    · rw [if_pos hname, beq_iff_eq.2 hname]
      rfl
    · rw [if_neg hname, beq_eq_false_iff_ne.2 hname]

/-- Where mnemonics tell operations apart, nothing is hidden. -/
theorem lookup?_of_mem (hinj : Function.Injective (Op.name : Op X → String)) {ops : List (Op X)} {op : Op X}
    (hop : op ∈ ops) : (empty.addAll ops).lookup? op.name = some (.ofOp op) := by
  have hfound : ops.reverse.find? (fun other => other.name == op.name) = some op := by
    cases hfind : ops.reverse.find? (fun other => other.name == op.name) with
    | none =>
      exact absurd (beq_self_eq_true op.name) (List.find?_eq_none.1 hfind op (List.mem_reverse.2 hop))
    | some other =>
      have hname := List.find?_some hfind
      rw [hinj (beq_iff_eq.1 hname)]
  rw [lookup?_addAll, hfound, Option.map_some]

theorem lookup?_eq_none {ops : List (Op X)} (h : ∀ op ∈ ops, op.name ≠ name) :
    (empty.addAll ops).lookup? name = none := by
  rw [lookup?_addAll, Option.map_eq_none_iff, List.find?_eq_none]
  intro op hop
  rw [beq_iff_eq]
  exact h op (List.mem_reverse.1 hop)

end Library

/-! ## Mnemonics of operations -/

namespace FrameOp

def unleveled : List (Op FrameOp) :=
  Builtin.all.map .builtin ++ PlainAct.all.map fun act => .ext (.plain act)

theorem nodup_unleveled : (unleveled.map Op.name).Nodup := by decide +kernel

theorem hyphen_notMem_unleveled : ∀ op ∈ unleveled, '-' ∉ op.name.toList := by decide +kernel

theorem nodup_forms : (LeveledAct.all.map LeveledAct.form).Nodup := by decide +kernel

theorem hyphen_notMem_form : ∀ act ∈ LeveledAct.all, '-' ∉ act.form.toList := by decide +kernel

/-- An operation has a level or is in the list of those without. -/
theorem mem_unleveled_or (op : Op FrameOp) :
    op ∈ unleveled ∨ ∃ act level, op = .ext (.leveled act level) := by
  cases op with
  | builtin b => exact .inl (List.mem_append_left _ (List.mem_map_of_mem b.mem_all))
  | ext x =>
    cases x with
    | plain act => exact .inl (List.mem_append_right _ (List.mem_map.2 ⟨act, act.mem_all, rfl⟩))
    | leveled act level => exact .inr ⟨act, level, rfl⟩

/-- The form of the instruction stands before the hyphen. -/
theorem toList_name_leveled (act : LeveledAct) (level : Nat) :
    (leveled act level).name.toList = act.form.toList ++ '-' :: ("Lev".toList ++ (Nat.repr level).toList) := by
  rw [name, String.toList_append, String.toList_append, List.append_assoc]
  rfl

/-- What stands before the hyphen can be told from what stands behind it. -/
theorem name_leveled_inj {act act' : LeveledAct} {level level' : Nat}
    (h : (leveled act level).name = (leveled act' level').name) : act = act' ∧ level = level' := by
  have hlist := congrArg String.toList h
  rw [toList_name_leveled, toList_name_leveled] at hlist
  have hlength := congrArg (List.idxOf '-') hlist
  rw [List.idxOf_append_of_notMem (hyphen_notMem_form act act.mem_all), List.idxOf_cons_self,
    List.idxOf_append_of_notMem (hyphen_notMem_form act' act'.mem_all), List.idxOf_cons_self] at hlength
  obtain ⟨hform, htail⟩ := List.append_inj hlist hlength
  constructor
  · exact List.inj_on_of_nodup_map nodup_forms act.mem_all act'.mem_all (String.toList_inj.1 hform)
  · obtain ⟨-, htail⟩ := List.cons_eq_cons.1 htail
    exact Nat.repr_injective (String.toList_inj.1 (List.append_cancel_left htail))

/-- A name with a level is no name without one. -/
theorem name_leveled_notMem (act : LeveledAct) (level : Nat) :
    ∀ op ∈ unleveled, op.name ≠ (leveled act level).name := by
  intro op hop h
  apply hyphen_notMem_unleveled op hop
  rw [h, toList_name_leveled]
  exact List.mem_append_right _ List.mem_cons_self

/-- The mnemonic tells which operation it is. -/
theorem name_injective : Function.Injective (Op.name : Op FrameOp → String) := by
  intro op op' h
  rcases mem_unleveled_or op with hop | ⟨act, level, rfl⟩
  · rcases mem_unleveled_or op' with hop' | ⟨act', level', rfl⟩
    · exact List.inj_on_of_nodup_map nodup_unleveled hop hop' h
    · exact absurd h (name_leveled_notMem act' level' op hop)
  · rcases mem_unleveled_or op' with hop' | ⟨act', level', rfl⟩
    · exact absurd h.symm (name_leveled_notMem act level op' hop')
    · obtain ⟨rfl, rfl⟩ := name_leveled_inj h
      rfl

/-! ## The library of a dish -/

/-- The operations that a program in a dish may use. -/
def known (nlev : Nat) : List (Op FrameOp) := Builtin.all.map .builtin ++ (catalogue nlev).map .ext

theorem library_eq (nlev : Nat) : library nlev = Library.empty.addAll (known nlev) := by
  rw [known, Library.addAll_append]
  rfl

theorem plain_mem_catalogue (act : PlainAct) (nlev : Nat) : plain act ∈ catalogue nlev := by
  cases act <;> simp [catalogue]

theorem leveled_mem_catalogue (act : LeveledAct) {level nlev : Nat} (h : level < nlev) :
    leveled act level ∈ catalogue nlev := by
  cases act <;> simp [catalogue, h] <;> omega

/-- No two environment instructions share a mnemonic, at whatever levels, and none has that of a built-in
operation. So in a dish of any number of levels each operation is found under its mnemonic and assembled with
the operands and the tag it is given, and everything else that is written down is an error that names it. In
any library what was added stands in its place, and under a mnemonic the last one added is found. -/
theorem assembled_by_name :
    Function.Injective name ∧ (∀ (x : FrameOp) (b : Builtin), x.name ≠ b.name) ∧
    (∀ nlev, (∀ b, .builtin b ∈ known nlev) ∧ (∀ act, .ext (.plain act) ∈ known nlev) ∧
      (∀ act, ∀ level < nlev, .ext (.leveled act level) ∈ known nlev) ∧
      (∀ op ∈ known nlev,
        (library nlev).lookup? op.name = some ⟨op.name, op, op.arity, op.description⟩ ∧
        ∀ args affinity, (library nlev).instruction op.name args affinity = .ok ⟨op, args, affinity⟩) ∧
      ∀ mnemonic, (∀ op ∈ known nlev, op.name ≠ mnemonic) → ∀ args affinity,
        (library nlev).instruction mnemonic args affinity = .error (.unknownInstruction mnemonic)) ∧
    ∀ (X : Type) [Extension X] (base ops : List (Op X)),
      let l := (Library.empty.addAll base).addAll ops
      (∀ i, l.get? i = (base ++ ops)[i]?.map .ofOp) ∧
      ∀ mnemonic, l.lookup? mnemonic =
        ((base ++ ops).reverse.find? fun op => op.name == mnemonic).map .ofOp := by
  refine ⟨fun x y h => ?_, fun x b h => ?_, fun nlev => ⟨fun b => ?_, fun act => ?_, fun act level hlevel => ?_,
    fun op hop => ?_, fun mnemonic hnone args affinity => ?_⟩, fun X _ base ops => ?_⟩
  · exact Op.ext.inj (name_injective h)
  · cases name_injective (show Op.name (.ext x) = Op.name (.builtin b) from h)
  · exact List.mem_append_left _ (List.mem_map_of_mem b.mem_all)
  · exact List.mem_append_right _ (List.mem_map_of_mem (plain_mem_catalogue act nlev))
  · exact List.mem_append_right _ (List.mem_map_of_mem (leveled_mem_catalogue act hlevel))
  · have hfound : (library nlev).lookup? op.name = some (.ofOp op) := by
      rw [library_eq]
      exact Library.lookup?_of_mem name_injective hop
    refine ⟨hfound, fun args affinity => ?_⟩
    rw [Library.instruction, hfound]
    rfl
  · have hmissing : (library nlev).lookup? mnemonic = none := by
      rw [library_eq]
      exact Library.lookup?_eq_none hnone
    rw [Library.instruction, hmissing]
  · rw [← Library.addAll_append]
    exact ⟨Library.get?_addAll _, Library.lookup?_addAll _⟩

/-- The highest level of an attempt to reproduce is known, and there is none above it. -/
theorem assembled_by_name_reproduction :
    .ext (.leveled .tryReproduce 2) ∈ known 2 ∧ (∀ op ∈ known 2, op.name ≠ "TryReproduce-Lev3") ∧
      (library 2).instruction "TryReproduce-Lev2" ⟨1, 2, 3⟩ ⟨5⟩ =
        .ok ⟨.ext (.leveled .tryReproduce 2), ⟨1, 2, 3⟩, ⟨5⟩⟩ ∧
      (library 2).instruction "TryReproduce-Lev3" ⟨1, 2, 3⟩ ⟨5⟩ =
        .error (.unknownInstruction "TryReproduce-Lev3") := by
  have hknown : .ext (.leveled .tryReproduce 2) ∈ known 2 := by decide +kernel
  have hunknown : ∀ op ∈ known 2, op.name ≠ "TryReproduce-Lev3" := by decide +kernel
  obtain ⟨-, -, -, hfound, hmissing⟩ := assembled_by_name.2.2.1 2
  exact ⟨hknown, hunknown, (hfound _ hknown).2 _ _, hmissing _ hunknown _ _⟩

end FrameOp

end Vivarium
