import Mathlib.Data.List.Nodup
import Std.Data.HashMap.Lemmas
import Vivarium.Membrane
import Vivarium.Proofs.Affinity.History
/-!
# The index of a membrane

The index of a membrane finds the one entry of each tag, and nothing else. So its operations are those
of a table of tags and multiplicities: registration overwrites the row of its tag or adds one at the
end, decay goes through the rows in place.
-/
namespace Vivarium

variable {α : Type} [Scalar α]

/-- Tags with their multiplicities, first registered first. -/
abbrev Table := List (Tag × UInt32)

namespace Table

def tags (t : Table) : List Tag := t.map (·.1)

/-- Overwrite the row of the tag, or add one at the end. -/
def put (t : Table) (tag : Tag) (multiplicity : UInt32) : Table :=
  if tag ∈ t.tags then t.map fun row => if row.1 = tag then (tag, multiplicity) else row
  else t ++ [(tag, multiplicity)]

def decay (t : Table) : Table :=
  t.filterMap fun row => if 2 < row.2 then some (row.1, row.2 - 2) else none

end Table

namespace Membrane

/-- Index and registry hold the same entries, each tag and each handle once, and none is regulated. -/
structure Linked (m : Membrane α) : Prop where
  index : ∀ tag h, m.index[tag]? = some h ↔
    ∃ e ∈ m.registry.entries, e.tag = tag ∧ e.handle = h
  tags : (m.registry.entries.map (·.tag)).Nodup
  handles : (m.registry.entries.map (·.handle)).Nodup
  /-- The next handle is a new one. -/
  fresh : ∀ e ∈ m.registry.entries, e.handle < m.registry.next
  neutral : ∀ e ∈ m.registry.entries, e.regulator = .neutral

variable {m : Membrane α}

omit [Scalar α] in
theorem tags_toList (m : Membrane α) : Table.tags m.toList = m.registry.entries.map (·.tag) := by
  simp [Table.tags, toList]

omit [Scalar α] in
theorem mem_tags_iff {tag : Tag} :
    tag ∈ Table.tags m.toList ↔ ∃ e ∈ m.registry.entries, e.tag = tag := by
  rw [tags_toList, List.mem_map]

namespace Linked

/-- Entries with one tag are one. -/
theorem eq_of_tag_eq (h : m.Linked) {d e : Entry α UInt32} (hd : d ∈ m.registry.entries)
    (he : e ∈ m.registry.entries) (htag : d.tag = e.tag) : d = e :=
  List.inj_on_of_nodup_map h.tags hd he htag

theorem eq_of_handle_eq (h : m.Linked) {d e : Entry α UInt32} (hd : d ∈ m.registry.entries)
    (he : e ∈ m.registry.entries) (hhandle : d.handle = e.handle) : d = e :=
  List.inj_on_of_nodup_map h.handles hd he hhandle

theorem entry?_eq (h : m.Linked) {e : Entry α UInt32} (he : e ∈ m.registry.entries) :
    m.registry.entry? e.handle = some e :=
  Registry.entry?_eq_some h.handles he

/-- The index lacks the tags that the list lacks. -/
theorem index_eq_none_iff (h : m.Linked) {tag : Tag} :
    m.index[tag]? = none ↔ tag ∉ Table.tags m.toList := by
  rw [mem_tags_iff]
  constructor
  · rintro hnone ⟨e, he, htag⟩
    rw [(h.index tag e.handle).2 ⟨e, he, htag, rfl⟩] at hnone
    cases hnone
  · intro habsent
    cases hi : m.index[tag]? with
    | none => rfl
    | some handle =>
      obtain ⟨e, he, htag, -⟩ := (h.index tag handle).1 hi
      exact absurd ⟨e, he, htag⟩ habsent

/-- What a query for exactly one tag finds is the row of the tag. -/
theorem multiplicity?_eq_some_iff (h : m.Linked) {tag : Tag} {v : UInt32} :
    m.multiplicity? tag = some v ↔ (tag, v) ∈ m.toList := by
  rw [multiplicity?, Option.bind_eq_some_iff, toList, List.mem_map]
  constructor
  · rintro ⟨handle, hi, hv⟩
    obtain ⟨e, he, rfl, rfl⟩ := (h.index tag handle).1 hi
    rw [Registry.get?, h.entry?_eq he, Option.map_some] at hv
    exact ⟨e, he, by rw [Option.some.inj hv]⟩
  · rintro ⟨e, he, hrow⟩
    obtain ⟨rfl, rfl⟩ := Prod.mk.inj hrow
    refine ⟨e.handle, (h.index _ _).2 ⟨e, he, rfl, rfl⟩, ?_⟩
    rw [Registry.get?, h.entry?_eq he, Option.map_some]

/-! ## Registration -/

/-- The tag has a row: its entry gets the new multiplicity. -/
theorem register_of_mem (h : m.Linked) {tag : Tag} (htag : tag ∈ Table.tags m.toList)
    (multiplicity : UInt32) : m.register tag multiplicity =
      { m with registry := { m.registry with
        entries := m.registry.entries.map fun e =>
          if e.tag = tag then { e with value := multiplicity } else e } } := by
  obtain ⟨e, he, rfl⟩ := mem_tags_iff.1 htag
  have hindex := (h.index e.tag e.handle).2 ⟨e, he, rfl, rfl⟩
  simp only [register, hindex, Option.bind_some, Registry.replace?, Registry.modify?,
    h.entry?_eq he, Option.isSome_some, if_true]
  congr 2
  apply List.map_congr_left
  intro d hd
  have hsame : (d.handle == e.handle) = true ↔ d.tag = e.tag := by
    rw [beq_iff_eq]
    constructor
    · exact fun hhandle => by rw [h.eq_of_handle_eq hd he hhandle]
    · exact fun htag => by rw [h.eq_of_tag_eq hd he htag]
  simp only [hsame]

/-- The tag has no row: it gets an entry behind all others. -/
theorem register_of_notMem (h : m.Linked) {tag : Tag} (htag : tag ∉ Table.tags m.toList)
    (multiplicity : UInt32) : m.register tag multiplicity =
      ⟨(m.registry.insert tag multiplicity).2, m.index.insert tag m.registry.next⟩ := by
  rw [register, h.index_eq_none_iff.2 htag]
  rfl

/-- In the list a registration overwrites a row or adds one at the end. -/
theorem toList_register (h : m.Linked) (tag : Tag) (multiplicity : UInt32) :
    (m.register tag multiplicity).toList = Table.put m.toList tag multiplicity := by
  rw [Table.put]
  by_cases htag : tag ∈ Table.tags m.toList
  · rw [if_pos htag, h.register_of_mem htag, toList, toList, List.map_map, List.map_map]
    apply List.map_congr_left
    intro e _
    simp only [Function.comp_apply]
    split
    · next he => rw [he]
    · rfl
  · rw [if_neg htag, h.register_of_notMem htag, toList, Registry.insert, List.map_append]
    rfl

theorem threshold_register (h : m.Linked) (tag : Tag) (multiplicity : UInt32) :
    (m.register tag multiplicity).registry.threshold = m.registry.threshold := by
  by_cases htag : tag ∈ Table.tags m.toList
  · rw [h.register_of_mem htag]
  · rw [h.register_of_notMem htag, Registry.insert]

/-- Entries that are rewritten in place keep their tags and handles, so the index still leads to them. -/
theorem map_entries (h : m.Linked) {f : Entry α UInt32 → Entry α UInt32}
    (hf : ∀ e, (f e).tag = e.tag ∧ (f e).handle = e.handle ∧ (f e).regulator = e.regulator) :
    Linked { m with registry := { m.registry with entries := m.registry.entries.map f } } := by
  constructor
  · intro t handle
    rw [h.index]
    simp only [List.mem_map, exists_exists_and_eq_and, (hf _).1, (hf _).2.1]
  · simp only [List.map_map, Function.comp_def, (hf _).1, h.tags]
  · simp only [List.map_map, Function.comp_def, (hf _).2.1, h.handles]
  · simp only [List.mem_map, forall_exists_index, and_imp, forall_apply_eq_imp_iff₂, (hf _).2.1]
    exact h.fresh
  · simp only [List.mem_map, forall_exists_index, and_imp, forall_apply_eq_imp_iff₂, (hf _).2.2]
    exact h.neutral

/-- A tag without a row gets an entry and a handle that no other has. -/
theorem insert_entry (h : m.Linked) {tag : Tag} (htag : tag ∉ Table.tags m.toList)
    (multiplicity : UInt32) :
    Linked ⟨(m.registry.insert tag multiplicity).2, m.index.insert tag m.registry.next⟩ := by
  rw [mem_tags_iff] at htag
  have hfresh (e : Entry α UInt32) (he : e ∈ m.registry.entries) :
      e.handle ≠ m.registry.next := Nat.ne_of_lt (h.fresh e he)
  constructor
  · intro t handle
    rw [Std.HashMap.getElem?_insert]
    simp only [Registry.insert, List.mem_append, List.mem_singleton, or_and_right, exists_or,
      exists_eq_left]
    by_cases ht : tag = t
    · subst ht
      simp only [beq_self_eq_true, if_true, Option.some.injEq, true_and]
      constructor
      · exact .inr
      · rintro (⟨e, he, he', -⟩ | hnext)
        · exact absurd ⟨e, he, he'⟩ htag
        · exact hnext
    · simp only [beq_iff_eq, ht, if_false, false_and, or_false]
      exact h.index t handle
  · simp only [Registry.insert, List.map_append, List.map_cons, List.map_nil]
    rw [List.nodup_append]
    refine ⟨h.tags, List.nodup_singleton _, ?_⟩
    rintro _ ht _ hs rfl
    obtain ⟨e, he, rfl⟩ := List.mem_map.1 ht
    exact htag ⟨e, he, List.mem_singleton.1 hs⟩
  · simp only [Registry.insert, List.map_append, List.map_cons, List.map_nil]
    rw [List.nodup_append]
    refine ⟨h.handles, List.nodup_singleton _, ?_⟩
    rintro _ ht _ hs rfl
    obtain ⟨e, he, rfl⟩ := List.mem_map.1 ht
    exact hfresh e he (List.mem_singleton.1 hs)
  · intro e he
    rcases List.mem_append.1 he with he | he
    · exact Nat.lt_succ_of_lt (h.fresh e he)
    · rw [List.mem_singleton.1 he]
      exact Nat.lt_succ_self _
  · intro e he
    rcases List.mem_append.1 he with he | he
    · exact h.neutral e he
    · rw [List.mem_singleton.1 he]

/-- Registrations keep index and registry linked. -/
theorem register (h : m.Linked) (tag : Tag) (multiplicity : UInt32) :
    (m.register tag multiplicity).Linked := by
  by_cases htag : tag ∈ Table.tags m.toList
  · rw [h.register_of_mem htag]
    refine h.map_entries fun e => ?_
    split
    · exact ⟨rfl, rfl, rfl⟩
    · exact ⟨rfl, rfl, rfl⟩
  · rw [h.register_of_notMem htag]
    exact h.insert_entry htag multiplicity

end Linked

/-! ## Decay -/

omit [Scalar α] in
theorem fade_eq_some {e f : Entry α UInt32} (h : fade e = some f) :
    f.tag = e.tag ∧ f.handle = e.handle ∧ f.regulator = e.regulator := by
  unfold fade at h
  split at h
  · obtain rfl := Option.some.inj h
    exact ⟨rfl, rfl, rfl⟩
  · cases h

omit [Scalar α] in
/-- Erasing tags one by one erases them all and no other. -/
theorem getElem?_foldl_erase_eq (gone : List (Entry α UInt32)) (index : Std.HashMap Tag Handle)
    (tag : Tag) : (gone.foldl (fun index e => index.erase e.tag) index)[tag]? =
      if tag ∈ gone.map (·.tag) then none else index[tag]? := by
  induction gone generalizing index with
  | nil => rfl
  | cons e rest ih =>
    rw [List.foldl_cons, ih, Std.HashMap.getElem?_erase]
    by_cases hrest : tag ∈ rest.map (·.tag)
    · simp [hrest]
    · by_cases he : e.tag = tag
      · simp [he]
      · simp [hrest, he, Ne.symm he]

omit [Scalar α] in
theorem toList_decay (m : Membrane α) : m.decay.toList = Table.decay m.toList := by
  simp only [decay, toList, Table.decay, List.map_filterMap, List.filterMap_map]
  congr 1
  funext e
  simp only [Function.comp_apply, fade]
  split
  · rfl
  · rfl

omit [Scalar α] in
/-- A map that an optional rewriting of the members does not change keeps its values apart. -/
theorem nodup_map_fade {γ : Type} {f : Entry α UInt32 → γ}
    (hf : ∀ {d e}, fade e = some d → f d = f e) {entries : List (Entry α UInt32)}
    (h : (entries.map f).Nodup) : ((entries.filterMap fade).map f).Nodup := by
  have hsub : ((entries.filterMap fade).map f).Sublist (entries.map f) := by
    induction entries with
    | nil => exact .slnil
    | cons e rest ih =>
      have ih := ih (List.nodup_cons.1 h).2
      cases he : fade e with
      | none =>
        rw [List.filterMap_cons_none he]
        exact ih.cons _
      | some d =>
        rw [List.filterMap_cons_some he, List.map_cons, List.map_cons, hf he]
        exact ih.cons_cons _
  exact h.sublist hsub

namespace Linked

theorem decay (h : m.Linked) : m.decay.Linked := by
  constructor
  · intro tag handle
    rw [Membrane.decay, getElem?_foldl_erase_eq]
    simp only [List.mem_filterMap]
    constructor
    · intro hi
      rw [ite_eq_iff] at hi
      obtain ⟨-, hi⟩ | ⟨hstays, hi⟩ := hi
      · cases hi
      · obtain ⟨e, he, rfl, rfl⟩ := (h.index tag handle).1 hi
        cases hd : fade e with
        | none =>
          have hgone : e ∈ m.registry.entries.filter fun e => (fade e).isNone :=
            List.mem_filter.2 ⟨he, by rw [hd]; rfl⟩
          exact absurd (List.mem_map_of_mem hgone) hstays
        | some d => exact ⟨d, ⟨e, he, hd⟩, (fade_eq_some hd).1, (fade_eq_some hd).2.1⟩
    · rintro ⟨d, ⟨e, he, hd⟩, rfl, rfl⟩
      obtain ⟨htag, hhandle, -⟩ := fade_eq_some hd
      rw [htag, hhandle, if_neg, h.index]
      · exact ⟨e, he, rfl, rfl⟩
      · intro hgone
        obtain ⟨g, hg, hge⟩ := List.mem_map.1 hgone
        obtain ⟨hg, hnone⟩ := List.mem_filter.1 hg
        rw [h.eq_of_tag_eq hg he hge, hd] at hnone
        cases hnone
  · exact nodup_map_fade (fun hd => (fade_eq_some hd).1) h.tags
  · exact nodup_map_fade (fun hd => (fade_eq_some hd).2.1) h.handles
  · intro d hd
    obtain ⟨e, he, hde⟩ := List.mem_filterMap.1 hd
    rw [(fade_eq_some hde).2.1]
    exact h.fresh e he
  · intro d hd
    obtain ⟨e, he, hde⟩ := List.mem_filterMap.1 hd
    rw [(fade_eq_some hde).2.2]
    exact h.neutral e he

/-! ## The empty membrane -/

theorem clear (m : Membrane α) : m.clear.Linked := by
  constructor
  · simp [Membrane.clear, Registry.clear]
  · exact List.nodup_nil
  · exact List.nodup_nil
  · exact fun e he => absurd he List.not_mem_nil
  · exact fun e he => absurd he List.not_mem_nil

theorem empty (threshold : α) : (Membrane.empty threshold).Linked := by
  constructor
  · simp [Membrane.empty, Registry.empty]
  · exact List.nodup_nil
  · exact List.nodup_nil
  · exact fun e he => absurd he List.not_mem_nil
  · exact fun e he => absurd he List.not_mem_nil

end Linked

end Membrane

end Vivarium
