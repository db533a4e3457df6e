import Std.Data.HashMap.Lemmas
import Vivarium.Membrane
/-!
# Renaming handles

Handles are names. A registry that has seen more insertions than another gives later handles, and that
is all that its past can still show: when every handle is shifted by the same number, all questions find
the same entries, and every change changes the same entries.
-/
namespace Vivarium

variable {α V W : Type}

def Entry.shift (k : Nat) (e : Entry α V) : Entry α V := { e with handle := e.handle + k }

/-- The registry, as if there had been `k` more insertions before its first one. -/
def Registry.shift (k : Nat) (r : Registry α V) : Registry α V :=
  { r with entries := r.entries.map (·.shift k), next := r.next + k }

variable [Scalar α]

/-! ## Rankings -/

theorem placeByDistance_map {β γ : Type} (f : β → γ) (x : α × β) (ys : List (α × β)) :
    placeByDistance (x.map id f) (ys.map (Prod.map id f)) =
      (placeByDistance x ys).map (Prod.map id f) := by
  induction ys with
  | nil => rfl
  | cons y ys ih =>
    simp only [placeByDistance, List.map_cons, Prod.map_fst, id_eq]
    split
    · rw [ih, List.map_cons]
    · rfl

theorem sortByDistance_map {β γ : Type} (f : β → γ) (xs : List (α × β)) :
    sortByDistance (xs.map (Prod.map id f)) = (sortByDistance xs).map (Prod.map id f) := by
  suffices h : ∀ sorted : List (α × β),
      (xs.map (Prod.map id f)).foldl (fun sorted x => placeByDistance x sorted)
        (sorted.map (Prod.map id f)) =
      (xs.foldl (fun sorted x => placeByDistance x sorted) sorted).map (Prod.map id f) from h []
  induction xs with
  | nil => exact fun sorted => rfl
  | cons x xs ih =>
    intro sorted
    rw [List.map_cons, List.foldl_cons, List.foldl_cons, placeByDistance_map, ih]

namespace Registry

variable (k : Nat) (r : Registry α V)

/-- Handles play no part in a ranking. -/
theorem ranking_shift (query : Tag) :
    (r.shift k).ranking query = (r.ranking query).map (·.shift k) := by
  have hqualifying : (r.shift k).qualifying query =
      (r.qualifying query).map (Prod.map id (·.shift k)) := by
    simp only [qualifying, shift, List.filterMap_map, List.map_filterMap]
    congr 1
    funext e
    change (if e.distance query ≤ _ then _ else _) = Option.map _ (if e.distance query ≤ _ then _ else _)
    split
    · rfl
    · rfl
  rw [ranking, ranking, hqualifying, sortByDistance_map, List.map_map, List.map_map]
  rfl

theorem best?_shift (query : Tag) : (r.shift k).best? query = (r.best? query).map (·.shift k) := by
  rw [best?, best?, ranking_shift, List.head?_map]

theorem matchBest?_shift (query : Tag) :
    (r.shift k).matchBest? query = (r.matchBest? query).map (· + k) := by
  rw [matchBest?, matchBest?, best?_shift, Option.map_map, Option.map_map]
  rfl

/-! ## Changes -/

omit [Scalar α] in
theorem handle_shift_beq (e : Entry α V) (h : Handle) :
    ((e.shift k).handle == h + k) = (e.handle == h) := by
  rw [Bool.eq_iff_iff, beq_iff_eq, beq_iff_eq]
  exact Nat.add_right_cancel_iff

omit [Scalar α] in
theorem entry?_shift (h : Handle) :
    Registry.entry? (r.shift k) (h + k) = (r.entry? h).map (·.shift k) := by
  unfold Registry.entry? shift
  rw [List.find?_map]
  congr 2
  funext e
  exact handle_shift_beq k e h

omit [Scalar α] in
theorem get?_shift (h : Handle) : (r.shift k).get? (h + k) = r.get? h := by
  rw [get?, get?, entry?_shift, Option.map_map]
  rfl

omit [Scalar α] in
/-- A change of the entry under a handle changes the entry under the later handle. -/
theorem modify?_shift (h : Handle) {f : Entry α V → Entry α V}
    (hf : ∀ e, f (e.shift k) = (f e).shift k) :
    (r.shift k).modify? (h + k) f = (r.modify? h f).map (shift k) := by
  rw [modify?, modify?, entry?_shift, Option.isSome_map]
  split
  · simp only [shift, Option.map_some, Option.some.injEq, Registry.mk.injEq, List.map_map, and_true]
    refine List.map_congr_left fun e _ => ?_
    simp only [Function.comp_apply, handle_shift_beq]
    split
    · exact hf e
    · rfl
  · rfl

omit [Scalar α] in
theorem replace?_shift (h : Handle) (value : V) :
    (r.shift k).replace? (h + k) value = (r.replace? h value).map (shift k) :=
  r.modify?_shift k h fun _ => rfl

theorem adjustRegulator?_shift (h : Handle) (delta : α) (duration : UInt32) :
    (r.shift k).adjustRegulator? (h + k) delta duration =
      (r.adjustRegulator? h delta duration).map (shift k) :=
  r.modify?_shift k h fun _ => rfl

theorem setRegulator?_shift (h : Handle) (value : α) (duration : UInt32) :
    (r.shift k).setRegulator? (h + k) value duration =
      (r.setRegulator? h value duration).map (shift k) :=
  r.modify?_shift k h fun _ => rfl

theorem insert_shift (tag : Tag) (value : V) :
    (r.shift k).insert tag value =
      ((r.insert tag value).1 + k, (r.insert tag value).2.shift k) := by
  simp only [insert, shift, List.map_append, List.map_cons, List.map_nil, Prod.mk.injEq,
    Registry.mk.injEq, true_and, and_true]
  exact ⟨rfl, Nat.add_right_comm _ _ _⟩

theorem decayRegulators_shift : (r.shift k).decayRegulators = r.decayRegulators.shift k := by
  simp only [decayRegulators, shift, List.map_map]
  rfl

omit [Scalar α] in
/-- Regulators are copied by tag. -/
theorem imprint_shift (target : Registry α W) : (r.shift k).imprint target = r.imprint target := by
  simp only [imprint, entryOf?, shift, List.find?_map]
  congr 2
  funext e
  have hfind : r.entries.find? ((fun s : Entry α V => s.tag == e.tag) ∘ (·.shift k)) =
      r.entries.find? (·.tag == e.tag) := rfl
  rw [hfind]
  cases r.entries.find? (·.tag == e.tag) with
  | none => rfl
  | some s => rfl

omit [Scalar α] in
/-- Nothing is left of a registry that was cleared but the number of its insertions. -/
theorem clear_eq_shift {s : Registry α V} (hs : s.entries = []) (hn : s.next = 0)
    (ht : r.threshold = s.threshold) : r.clear = s.shift r.next := by
  simp only [clear, shift, hs, hn, ht, List.map_nil, Nat.zero_add]

end Registry

/-! ## Membranes -/

namespace Membrane

/-- The same membrane but for the handles. -/
structure Renamed (k : Nat) (m n : Membrane α) : Prop where
  registry : n.registry = m.registry.shift k
  index : ∀ tag : Tag, n.index[tag]? = m.index[tag]?.map (· + k)

variable {k : Nat} {m n : Membrane α}

theorem Renamed.register (h : Renamed k m n) (tag : Tag) (multiplicity : UInt32) :
    Renamed k (m.register tag multiplicity) (n.register tag multiplicity) := by
  have hfound : (n.index[tag]?.bind fun h => n.registry.replace? h multiplicity) =
      (m.index[tag]?.bind fun h => m.registry.replace? h multiplicity).map (·.shift k) := by
    rw [h.index, h.registry]
    cases m.index[tag]? with
    | none => rfl
    | some handle => exact m.registry.replace?_shift k handle multiplicity
  unfold Membrane.register
  rw [hfound]
  cases m.index[tag]?.bind fun h => m.registry.replace? h multiplicity with
  | some registry => exact ⟨rfl, h.index⟩
  | none =>
    simp only [Option.map_none, h.registry, Registry.insert_shift]
    refine ⟨rfl, fun t => ?_⟩
    simp only [Std.HashMap.getElem?_insert]
    split
    · rfl
    · exact h.index t

omit [Scalar α] in
/-- Erasing tags from both indices keeps them alike. -/
theorem getElem?_foldl_erase (k : Nat) (gone : List (Entry α UInt32))
    {i j : Std.HashMap Tag Handle} (h : ∀ tag : Tag, j[tag]? = i[tag]?.map (· + k)) (tag : Tag) :
    ((gone.map (·.shift k)).foldl (fun index e => index.erase e.tag) j)[tag]? =
      (gone.foldl (fun index e => index.erase e.tag) i)[tag]?.map (· + k) := by
  induction gone generalizing i j with
  | nil => exact h tag
  | cons e rest ih =>
    refine ih fun t => ?_
    change (j.erase e.tag)[t]? = _
    rw [Std.HashMap.getElem?_erase, Std.HashMap.getElem?_erase, h t]
    split
    · rfl
    · rfl

omit [Scalar α] in
theorem fade_shift (k : Nat) (e : Entry α UInt32) : fade (e.shift k) = (fade e).map (·.shift k) := by
  unfold fade
  change (if 2 < e.value then _ else _) = _
  split
  · rfl
  · rfl

omit [Scalar α] in
theorem Renamed.decay (h : Renamed k m n) : Renamed k m.decay n.decay := by
  constructor
  · simp only [Membrane.decay, h.registry, Registry.shift, List.filterMap_map, List.map_filterMap,
      Registry.mk.injEq, and_true]
    congr 1
    funext e
    exact fade_shift k e
  · have hgone : n.registry.entries.filter (fun e => (fade e).isNone) =
        (m.registry.entries.filter fun e => (fade e).isNone).map (·.shift k) := by
      rw [h.registry, Registry.shift, List.filter_map]
      congr 2
      funext e
      rw [Function.comp_apply, fade_shift, Option.isNone_map]
    simp only [Membrane.decay, hgone]
    exact getElem?_foldl_erase k _ h.index

theorem Renamed.admits (h : Renamed k m n) (tag : Tag) : n.admits tag = m.admits tag := by
  unfold Membrane.admits
  rw [h.registry, Registry.best?_shift]
  cases m.registry.best? tag with
  | none => rfl
  | some e => rfl

theorem Renamed.matchRanked (h : Renamed k m n) (tag : Tag) (count : Nat) :
    n.matchRanked tag count = m.matchRanked tag count := by
  rw [Membrane.matchRanked, Membrane.matchRanked, h.registry, Registry.ranking_shift, ← List.map_take,
    List.map_map]
  rfl

omit [Scalar α] in
theorem Renamed.multiplicity? (h : Renamed k m n) (tag : Tag) :
    n.multiplicity? tag = m.multiplicity? tag := by
  rw [Membrane.multiplicity?, Membrane.multiplicity?, h.index, h.registry]
  cases m.index[tag]? with
  | none => rfl
  | some handle => exact m.registry.get?_shift k handle

omit [Scalar α] in
theorem Renamed.toList (h : Renamed k m n) : n.toList = m.toList := by
  rw [Membrane.toList, Membrane.toList, h.registry, Registry.shift, List.map_map]
  rfl

omit [Scalar α] in
theorem Renamed.clear (h : Renamed k m n) : Renamed k m.clear n.clear := by
  refine ⟨?_, fun tag => ?_⟩
  · rw [Membrane.clear, h.registry]
    rfl
  · simp only [Membrane.clear, Std.HashMap.getElem?_empty, Option.map_none]

/-- Membranes that a frame cannot tell apart, and goes on not to tell apart. -/
structure Twinning (ρ : Membrane α → Membrane α → Prop) : Prop where
  register : ∀ {m n}, ρ m n → ∀ (tag : Tag) (multiplicity : UInt32),
    ρ (m.register tag multiplicity) (n.register tag multiplicity)
  decay : ∀ {m n}, ρ m n → ρ m.decay n.decay
  admits : ∀ {m n}, ρ m n → ∀ tag : Tag, n.admits tag = m.admits tag

/-- Membranes that differ in handles cannot be told apart by a frame. -/
theorem twinning_renamed (k : Nat) : Twinning (Renamed k : Membrane α → Membrane α → Prop) :=
  ⟨Renamed.register, Renamed.decay, Renamed.admits⟩

theorem twinning_eq : Twinning (@Eq (Membrane α)) := by
  refine ⟨?_, ?_, ?_⟩
  · rintro m _ rfl tag multiplicity
    rfl
  · rintro m _ rfl
    rfl
  · rintro m _ rfl tag
    rfl

end Membrane

end Vivarium
