import Mathlib.Data.List.Nodup
import Vivarium.Affinity.Registry
import Vivarium.Proofs.Scalar.Numeric
/-!
# Histories of a registry

Whatever is done to a registry, its entries stand in the order of their handles, the next handle is a new
one, and every regulator holds a finite value: an amount that is not finite never gets into a regulator.
-/
namespace Vivarium

variable {α V W : Type} [Scalar α]

/-! ## Regulators -/

namespace Regulator

variable {r : Regulator α}

theorem finite_set (h : Scalar.isFinite r.value = true) (value : α) (duration : UInt32) :
    Scalar.isFinite (r.set value duration).value = true := by
  unfold set
  split
  · next hv => exact hv
  · exact h

variable [Scalar.Numeric α]

theorem finite_neutral : Scalar.isFinite (neutral : Regulator α).value = true :=
  Scalar.Numeric.finite_zero

omit [Scalar.Numeric α] in
theorem value_decay (r : Regulator α) :
    r.decay.value = if HalfWord.pred r.countdown = 0 then 0 else r.value := rfl

theorem finite_decay (h : Scalar.isFinite r.value = true) : Scalar.isFinite r.decay.value = true := by
  rw [value_decay]
  split
  · exact Scalar.Numeric.finite_zero
  · exact h

end Regulator

namespace Registry

/-! ## What can be done -/

/-- The registries that come out of empty ones. Only registries like these imprint one another. -/
inductive Reached : {V : Type} → Registry α V → Prop where
  | empty {V : Type} (threshold : α) : Reached (.empty threshold : Registry α V)
  | insert {V : Type} {r : Registry α V} (tag : Tag) (value : V) :
      Reached r → Reached (r.insert tag value).2
  | erase {V : Type} {r : Registry α V} (h : Handle) : Reached r → Reached (r.erase h)
  | clear {V : Type} {r : Registry α V} : Reached r → Reached r.clear
  | replace {V : Type} {r s : Registry α V} {h : Handle} {value : V} :
      Reached r → r.replace? h value = some s → Reached s
  | adjustRegulator {V : Type} {r s : Registry α V} {h : Handle} {delta : α} {duration : UInt32} :
      Reached r → r.adjustRegulator? h delta duration = some s → Reached s
  | setRegulator {V : Type} {r s : Registry α V} {h : Handle} {value : α} {duration : UInt32} :
      Reached r → r.setRegulator? h value duration = some s → Reached s
  | decayRegulators {V : Type} {r : Registry α V} : Reached r → Reached r.decayRegulators
  | resetRegulators {V : Type} {r : Registry α V} : Reached r → Reached r.resetRegulators
  | imprint {V W : Type} {source : Registry α W} {r : Registry α V} :
      Reached source → Reached r → Reached (source.imprint r)
  | setThreshold {V : Type} {r : Registry α V} (threshold : α) :
      Reached r → Reached (r.setThreshold threshold)

/-! ## What stays -/

structure Sane (r : Registry α V) : Prop where
  ascending : r.handles.Pairwise (· < ·)
  /-- The next handle is behind all others. -/
  fresh : ∀ h ∈ r.handles, h < r.next
  finite : ∀ e ∈ r.entries, Scalar.isFinite e.regulator.value = true

namespace Sane

variable {r s : Registry α V}

/-- Entries that keep their handles may be rewritten. -/
theorem map (h : r.Sane) {f : Entry α V → Entry α V} (hhandle : ∀ e, (f e).handle = e.handle)
    (hfinite : ∀ e, Scalar.isFinite e.regulator.value = true →
      Scalar.isFinite (f e).regulator.value = true) :
    ({ r with entries := r.entries.map f } : Registry α V).Sane := by
  have hhandles : ({ r with entries := r.entries.map f } : Registry α V).handles = r.handles := by
    simp only [handles, List.map_map, Function.comp_def, hhandle]
  refine ⟨?_, ?_, fun e he => ?_⟩
  · rw [hhandles]
    exact h.ascending
  · rw [hhandles]
    exact h.fresh
  · obtain ⟨d, hd, rfl⟩ := List.mem_map.1 he
    exact hfinite d (h.finite d hd)

/-- A change of one entry is harmless as long as its handle stays and its value is finite. -/
theorem modify? (h : r.Sane) {handle : Handle} {f : Entry α V → Entry α V}
    (hs : r.modify? handle f = some s) (hhandle : ∀ e, (f e).handle = e.handle)
    (hfinite : ∀ e, Scalar.isFinite e.regulator.value = true →
      Scalar.isFinite (f e).regulator.value = true) : s.Sane := by
  obtain ⟨-, hs⟩ := Option.ite_none_right_eq_some.1 hs
  obtain rfl := Option.some.inj hs
  refine h.map (fun e => ?_) fun e he => ?_
  · split
    · exact hhandle e
    · rfl
  · split
    · exact hfinite e he
    · exact he

/-- Entries may be dropped. -/
theorem sublist (h : r.Sane) {entries : List (Entry α V)} (hsub : entries.Sublist r.entries) :
    ({ r with entries } : Registry α V).Sane :=
  have hhandles : (entries.map (·.handle)).Sublist r.handles := hsub.map _
  ⟨h.ascending.sublist hhandles, fun g hg => h.fresh g (hhandles.subset hg),
    fun e he => h.finite e (hsub.subset he)⟩

variable [Scalar.Numeric α]

theorem insert (h : r.Sane) (tag : Tag) (value : V) : (r.insert tag value).2.Sane := by
  have hhandles : (r.insert tag value).2.handles = r.handles ++ [r.next] := by
    simp [handles, Registry.insert]
  refine ⟨?_, fun g hg => ?_, fun e he => ?_⟩
  · rw [hhandles, List.pairwise_append]
    refine ⟨h.ascending, List.pairwise_singleton _ _, fun g hg g' hg' => ?_⟩
    rw [List.mem_singleton.1 hg']
    exact h.fresh g hg
  · rw [hhandles] at hg
    rcases List.mem_append.1 hg with hg | hg
    · exact Nat.lt_succ_of_lt (h.fresh g hg)
    · rw [List.mem_singleton.1 hg]
      exact Nat.lt_succ_self _
  · rcases List.mem_append.1 he with he | he
    · exact h.finite e he
    · rw [List.mem_singleton.1 he]
      exact Regulator.finite_neutral

omit [Scalar.Numeric α] in
/-- A regulator that is copied comes from an entry of the source. -/
theorem imprint {source : Registry α W} (hs : source.Sane) (h : r.Sane) :
    (source.imprint r).Sane := by
  refine h.map (fun e => ?_) fun e he => ?_
  · split
    · rfl
    · rfl
  · split
    · next d hd => exact hs.finite d (List.mem_of_find?_eq_some hd)
    · exact he

end Sane

/-- Handles ascend in every registry that comes out of empty ones, and all values are finite. -/
theorem Reached.sane [Scalar.Numeric α] {r : Registry α V} (h : r.Reached) : r.Sane := by
  induction h with
  | empty threshold =>
    exact ⟨.nil, fun _ h => absurd h List.not_mem_nil, fun _ h => absurd h List.not_mem_nil⟩
  | insert tag value _ ih => exact ih.insert tag value
  | erase h _ ih => exact ih.sublist List.filter_sublist
  | clear _ ih => exact ih.sublist (List.nil_sublist _)
  | replace _ hs ih => exact ih.modify? hs (fun _ => rfl) fun _ he => he
  | adjustRegulator _ hs ih => exact ih.modify? hs (fun _ => rfl) fun _ he => Regulator.finite_set he _ _
  | setRegulator _ hs ih => exact ih.modify? hs (fun _ => rfl) fun _ he => Regulator.finite_set he _ _
  | decayRegulators _ ih => exact ih.map (fun _ => rfl) fun _ he => Regulator.finite_decay he
  | resetRegulators _ ih => exact ih.map (fun _ => rfl) fun _ _ => Regulator.finite_neutral
  | imprint _ _ ihs ih => exact ihs.imprint ih
  | setThreshold threshold _ ih => exact ⟨ih.ascending, ih.fresh, ih.finite⟩

/-! ## Lookups -/

variable {r : Registry α V} {h : Handle}

omit [Scalar α] in
theorem of_entry?_eq_some {e : Entry α V} (he : r.entry? h = some e) : e ∈ r.entries ∧ e.handle = h := by
  unfold Registry.entry? at he
  have hhandle := List.find?_some he
  exact ⟨List.mem_of_find?_eq_some he, beq_iff_eq.1 hhandle⟩

theorem Sane.nodup_handles (hr : r.Sane) : r.handles.Nodup := hr.ascending.imp Nat.ne_of_lt

/-- Handles tell places apart. -/
theorem Sane.idxOf_handle (hr : r.Sane) {i : Nat} {e : Entry α V} (he : r.entries[i]? = some e) :
    r.handles.idxOf e.handle = i := by
  have hi : r.handles[i]? = some e.handle := by rw [handles, List.getElem?_map, he, Option.map_some]
  obtain ⟨hlt, heq⟩ := List.getElem?_eq_some_iff.1 hi
  rw [← heq]
  exact hr.nodup_handles.idxOf_getElem i hlt

omit [Scalar α] in
theorem entry?_eq_some (hnodup : r.handles.Nodup) {e : Entry α V} (he : e ∈ r.entries) :
    r.entry? e.handle = some e := by
  cases hd : r.entry? e.handle with
  | none => exact absurd (beq_self_eq_true e.handle) (List.find?_eq_none.1 hd e he)
  | some d =>
    obtain ⟨hmem, hhandle⟩ := of_entry?_eq_some hd
    rw [List.inj_on_of_nodup_map hnodup hmem he hhandle]

/-- No entry has the handle of the next insertion yet. -/
theorem Sane.entry?_next (hr : r.Sane) : r.entry? r.next = none := by
  rw [Option.eq_none_iff_forall_ne_some]
  intro e he
  obtain ⟨hmem, hhandle⟩ := of_entry?_eq_some he
  have hlt := hr.fresh e.handle (List.mem_map_of_mem hmem)
  rw [hhandle] at hlt
  exact Nat.lt_irrefl _ hlt

omit [Scalar α] in
theorem regulator?_map {f : Entry α V → Entry α V} {F : Regulator α → Regulator α}
    (hf : ∀ e, (f e).handle = e.handle)
    (hF : ∀ e ∈ r.entries, e.handle = h → (f e).regulator = F e.regulator) :
    ({ r with entries := r.entries.map f } : Registry α V).regulator? h = (r.regulator? h).map F := by
  simp only [regulator?, entry?, List.find?_map, Function.comp_def, hf, Option.map_map]
  exact Option.map_congr fun e he => hF e (of_entry?_eq_some he).1 (of_entry?_eq_some he).2

end Registry

end Vivarium
