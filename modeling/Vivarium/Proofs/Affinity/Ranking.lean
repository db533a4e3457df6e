import Mathlib.Data.List.Induction
import Vivarium.Affinity.Registry
/-!
# Rankings

A ranking is a rearrangement of the entries that clear the threshold, so whatever a registry
returns for a query is one of its entries. It begins with the first entry of those at least distance.
-/
namespace Vivarium

variable {α V : Type} [Scalar α]

theorem placeByDistance_perm {β : Type} (x : α × β) (ys : List (α × β)) :
    (placeByDistance x ys).Perm (x :: ys) := by
  induction ys with
  | nil => exact .refl _
  | cons y ys ih =>
    simp only [placeByDistance]
    split
    · exact (ih.cons y).trans (.swap x y ys)
    · exact .refl _

theorem sortByDistance_perm {β : Type} (xs : List (α × β)) : (sortByDistance xs).Perm xs := by
  suffices h : ∀ sorted : List (α × β),
      (xs.foldl (fun sorted x => placeByDistance x sorted) sorted).Perm (xs ++ sorted) by
    simpa [sortByDistance] using h []
  induction xs with
  | nil => exact fun sorted => .refl _
  | cons x xs ih =>
    intro sorted
    refine (ih _).trans ?_
    exact ((placeByDistance_perm x sorted).append_left xs).trans List.perm_middle

/-! ## The head of a ranking -/

/-- The member is the first of those of least rank. -/
def FirstLeast {β : Type} (rank : β → Nat) (x : β) (xs : List β) : Prop :=
  ∃ before after, xs = before ++ x :: after ∧ (∀ y ∈ before, rank x < rank y) ∧
    ∀ y ∈ after, rank x ≤ rank y

namespace FirstLeast

variable {β γ : Type} {rank : β → Nat} {x y : β} {xs : List β}

omit [Scalar α] in
theorem mem (h : FirstLeast rank x xs) : x ∈ xs := by
  obtain ⟨before, after, rfl, -, -⟩ := h
  exact List.mem_append_right before List.mem_cons_self

omit [Scalar α] in
theorem le (h : FirstLeast rank x xs) (hy : y ∈ xs) : rank x ≤ rank y := by
  obtain ⟨before, after, rfl, hbefore, hafter⟩ := h
  rcases List.mem_append.1 hy with hy | hy
  · exact Nat.le_of_lt (hbefore y hy)
  · cases hy with
    | head => exact Nat.le_refl _
    | tail _ hy => exact hafter y hy

omit [Scalar α] in
/-- A further member takes the place of the first least one only if it is less than all. -/
theorem concat_iff {z : β} : FirstLeast rank x (xs ++ [z]) ↔
    FirstLeast rank x xs ∧ rank x ≤ rank z ∨ x = z ∧ ∀ y ∈ xs, rank z < rank y := by
  constructor
  · rintro ⟨before, after, heq, hbefore, hafter⟩
    rcases List.eq_nil_or_concat after with rfl | ⟨init, last, rfl⟩
    · obtain ⟨rfl, hz⟩ := List.append_inj' heq rfl
      obtain rfl := List.singleton_inj.1 hz
      exact .inr ⟨rfl, hbefore⟩
    · rw [List.concat_eq_append, ← List.cons_append, ← List.append_assoc] at heq
      obtain ⟨rfl, hz⟩ := List.append_inj' heq rfl
      obtain rfl := List.singleton_inj.1 hz
      rw [List.concat_eq_append] at hafter
      exact .inl ⟨⟨before, init, rfl, hbefore, fun y hy => hafter y (List.mem_append_left _ hy)⟩,
        hafter z (List.mem_append_right _ List.mem_cons_self)⟩
  · rintro (⟨⟨before, after, rfl, hbefore, hafter⟩, hz⟩ | ⟨rfl, hlt⟩)
    · refine ⟨before, after ++ [z], by simp, hbefore, fun y hy => ?_⟩
      rcases List.mem_append.1 hy with hy | hy
      · exact hafter y hy
      · rwa [List.mem_singleton.1 hy]
    · exact ⟨xs, [], rfl, hlt, fun y hy => absurd hy List.not_mem_nil⟩

omit [Scalar α] in
/-- Least rank may be looked for before a map or after it. -/
theorem map_iff {f : γ → β} {zs : List γ} : FirstLeast rank x (zs.map f) ↔
    ∃ z, f z = x ∧ FirstLeast (fun z => rank (f z)) z zs := by
  constructor
  · rintro ⟨before, after, heq, hbefore, hafter⟩
    obtain ⟨before', rest, rfl, rfl, hrest⟩ := List.map_eq_append_iff.1 heq
    obtain ⟨z, after', rfl, rfl, rfl⟩ := List.map_eq_cons_iff.1 hrest
    exact ⟨z, rfl, before', after', rfl, fun y hy => hbefore _ (List.mem_map_of_mem hy),
      fun y hy => hafter _ (List.mem_map_of_mem hy)⟩
  · rintro ⟨z, rfl, before, after, rfl, hbefore, hafter⟩
    refine ⟨before.map f, after.map f, by simp, ?_, ?_⟩
    · intro y hy
      obtain ⟨w, hw, rfl⟩ := List.mem_map.1 hy
      exact hbefore w hw
    · intro y hy
      obtain ⟨w, hw, rfl⟩ := List.mem_map.1 hy
      exact hafter w hw

end FirstLeast

theorem sortByDistance_concat {β : Type} (xs : List (α × β)) (x : α × β) :
    sortByDistance (xs ++ [x]) = placeByDistance x (sortByDistance xs) := by
  rw [sortByDistance, List.foldl_append]
  rfl

/-- Where distances compare as ranks, sorting brings the first member of least rank to the front. -/
theorem head?_sortByDistance {β : Type} {rank : α × β → Nat} {xs : List (α × β)}
    (h : ∀ p ∈ xs, ∀ q ∈ xs, p.1 ≤ q.1 ↔ rank p ≤ rank q) {x : α × β} :
    (sortByDistance xs).head? = some x ↔ FirstLeast rank x xs := by
  induction xs using List.reverseRecOn generalizing x with
  | nil =>
    constructor
    · rintro ⟨⟩
    · exact fun h => absurd h.mem List.not_mem_nil
  | append_singleton xs z ih =>
    have ih {y : α × β} : (sortByDistance xs).head? = some y ↔ FirstLeast rank y xs :=
      ih fun p hp q hq => h p (List.mem_append_left _ hp) q (List.mem_append_left _ hq)
    rw [sortByDistance_concat, FirstLeast.concat_iff, ← ih]
    cases hs : sortByDistance xs with
    | nil =>
      have hnil : xs = [] := (hs ▸ sortByDistance_perm xs).nil_eq.symm
      simp [placeByDistance, hnil, eq_comm]
    | cons y ys =>
      have hy : FirstLeast rank y xs := ih.1 (by rw [hs]; rfl)
      have hle := h y (List.mem_append_left _ hy.mem) z (List.mem_append_right _ List.mem_cons_self)
      by_cases hyz : y.1 ≤ z.1
      · rw [placeByDistance, if_pos hyz]
        have hrank := hle.1 hyz
        constructor
        · intro hx
          obtain rfl := Option.some.inj hx
          exact .inl ⟨rfl, hrank⟩
        · rintro (⟨hx, -⟩ | ⟨rfl, hlt⟩)
          · exact hx
          · exact absurd (hlt y hy.mem) (by omega)
      · rw [placeByDistance, if_neg hyz]
        have hrank : rank z < rank y := Nat.lt_of_not_le fun hrank => hyz (hle.2 hrank)
        constructor
        · intro hx
          obtain rfl := Option.some.inj hx
          exact .inr ⟨rfl, fun w hw => Nat.lt_of_lt_of_le hrank (hy.le hw)⟩
        · rintro (⟨hx, hxz⟩ | ⟨rfl, -⟩)
          · obtain rfl := Option.some.inj hx
            omega
          · rfl

namespace Registry

def Clears (r : Registry α V) (query : Tag) (e : Entry α V) : Prop :=
  e.distance query ≤ 1 - r.threshold

instance (r : Registry α V) (query : Tag) : DecidablePred (r.Clears query) := fun e =>
  inferInstanceAs (Decidable (e.distance query ≤ 1 - r.threshold))

theorem qualifying_eq (r : Registry α V) (query : Tag) :
    r.qualifying query =
      (r.entries.filter fun e => decide (r.Clears query e)).map fun e => (e.distance query, e) := by
  rw [qualifying, ← List.filterMap_eq_map, List.filterMap_filter]
  congr 1
  funext e
  simp only [decide_eq_true_eq, Function.comp_apply]
  rfl

/-- A ranking is made of the entries that are near enough, each once. -/
theorem ranking_perm (r : Registry α V) (query : Tag) :
    (r.ranking query).Perm (r.entries.filter fun e => decide (r.Clears query e)) := by
  have hsort := (sortByDistance_perm (r.qualifying query)).map (·.2)
  rwa [qualifying_eq, List.map_map, Function.comp_def, List.map_id', ← qualifying_eq] at hsort

theorem mem_ranking {r : Registry α V} {query : Tag} {e : Entry α V} :
    e ∈ r.ranking query ↔ e ∈ r.entries ∧ r.Clears query e := by
  rw [(r.ranking_perm query).mem_iff, List.mem_filter, decide_eq_true_eq]

/-- The best match of a query is an entry. -/
theorem mem_of_best?_eq_some {r : Registry α V} {query : Tag} {e : Entry α V}
    (h : r.best? query = some e) : e ∈ r.entries :=
  (mem_ranking.1 (List.mem_of_mem_head? h)).1

end Registry

end Vivarium
