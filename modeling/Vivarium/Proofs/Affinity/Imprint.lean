import Vivarium.Proofs.Affinity.History
import Vivarium.Proofs.Affinity.Ranking
import Vivarium.Proofs.Affinity.Renaming
/-!
# Imprinting

An imprint copies regulators by tag and nothing else: of the entries of the source with the tag, the one that
was inserted first gives its regulator. What a ranking makes of an entry is told by its tag and its regulator.
So where the tags of two registries stand in the same order, and none stands there twice, an imprint makes
them rank alike.
-/
namespace Vivarium

variable {α V W : Type} [Scalar α]

/-- What a ranking asks of an entry. -/
def Entry.route (e : Entry α V) : Tag × Regulator α := (e.tag, e.regulator)

namespace Registry

/-! ## Rankings that are alike -/

/-- At every place there are entries that no query can tell apart. -/
structure Alike (r : Registry α V) (s : Registry α W) : Prop where
  routes : r.entries.map Entry.route = s.entries.map Entry.route
  threshold : r.threshold = s.threshold

variable {r : Registry α V} {s : Registry α W} {query : Tag}

namespace Alike

omit [Scalar α] in
theorem length_eq (h : r.Alike s) : r.entries.length = s.entries.length := by
  have hlength := congrArg List.length h.routes
  rwa [List.length_map, List.length_map] at hlength

omit [Scalar α] in
theorem route_eq (h : r.Alike s) {p : Entry α V × Entry α W} (hp : p ∈ r.entries.zip s.entries) :
    p.1.route = p.2.route := by
  obtain ⟨i, hi⟩ := List.mem_iff_getElem?.1 hp
  obtain ⟨hfst, hsnd⟩ := List.getElem?_zip_eq_some.1 hi
  have hroutes := congrArg (·[i]?) h.routes
  simp only [List.getElem?_map, hfst, hsnd, Option.map_some, Option.some.injEq] at hroutes
  exact hroutes

def qualifying (r : Registry α V) (s : Registry α W) (query : Tag) : List (α × Entry α V × Entry α W) :=
  (r.entries.zip s.entries).filterMap fun p =>
    if p.1.distance query ≤ 1 - r.threshold then some (p.1.distance query, p) else none

theorem qualifying_fst (h : r.Alike s) (query : Tag) :
    r.qualifying query = (qualifying r s query).map (Prod.map id Prod.fst) := by
  conv_lhs => rw [Registry.qualifying, ← List.map_fst_zip (Nat.le_of_eq h.length_eq), List.filterMap_map]
  rw [qualifying, List.map_filterMap]
  congr 1
  funext p
  simp only [Function.comp_apply]
  split
  · rfl
  · rfl

theorem qualifying_snd (h : r.Alike s) (query : Tag) :
    s.qualifying query = (qualifying r s query).map (Prod.map id Prod.snd) := by
  conv_lhs => rw [Registry.qualifying, ← List.map_snd_zip (Nat.le_of_eq h.length_eq.symm), List.filterMap_map]
  rw [qualifying, List.map_filterMap]
  refine List.filterMap_congr fun p hp => ?_
  have hdistance : p.2.distance query = p.1.distance query := by
    obtain ⟨htag, hregulator⟩ := Prod.ext_iff.1 (h.route_eq hp)
    change p.1.tag = p.2.tag at htag
    change p.1.regulator = p.2.regulator at hregulator
    rw [Entry.distance, Entry.distance, htag, hregulator]
  simp only [Function.comp_apply, hdistance, h.threshold]
  split
  · rfl
  · rfl

/-- Both rankings are one ranking of pairs. -/
theorem ranking_eq (h : r.Alike s) (query : Tag) :
    ∃ ranked ⊆ r.entries.zip s.entries,
      r.ranking query = ranked.map Prod.fst ∧ s.ranking query = ranked.map Prod.snd := by
  refine ⟨(sortByDistance (qualifying r s query)).map (·.2), fun p hp => ?_, ?_, ?_⟩
  · obtain ⟨x, hx, rfl⟩ := List.mem_map.1 hp
    obtain ⟨q, hq, hxq⟩ := List.mem_filterMap.1 ((sortByDistance_perm _).mem_iff.1 hx)
    obtain ⟨-, hxq⟩ := Option.ite_none_right_eq_some.1 hxq
    obtain rfl := Option.some.inj hxq
    exact hq
  · rw [ranking, h.qualifying_fst, sortByDistance_map, List.map_map, List.map_map]
    rfl
  · rw [ranking, h.qualifying_snd, sortByDistance_map, List.map_map, List.map_map]
    rfl

/-- A pair of entries stands at one place. -/
theorem idxOf_eq (hr : r.Sane) (hs : s.Sane) {p : Entry α V × Entry α W}
    (hp : p ∈ r.entries.zip s.entries) : r.handles.idxOf p.1.handle = s.handles.idxOf p.2.handle := by
  obtain ⟨i, hi⟩ := List.mem_iff_getElem?.1 hp
  obtain ⟨hfst, hsnd⟩ := List.getElem?_zip_eq_some.1 hi
  rw [hr.idxOf_handle hfst, hs.idxOf_handle hsnd]

/-- Every query ranks the same places in both. -/
theorem matchRanked_eq (h : r.Alike s) (hr : r.Sane) (hs : s.Sane) (query : Tag) (n : Nat) :
    (r.matchRanked query n).map (r.handles.idxOf ·) = (s.matchRanked query n).map (s.handles.idxOf ·) := by
  obtain ⟨ranked, hsub, hfst, hsnd⟩ := h.ranking_eq query
  simp only [matchRanked, hfst, hsnd, ← List.map_take, List.map_map]
  exact List.map_congr_left fun p hp => idxOf_eq hr hs (hsub (List.mem_of_mem_take hp))

end Alike

/-! ## Imprints -/

variable {source : Registry α V} {target : Registry α W} {d : Entry α V} {e : Entry α W}

/-- Handles count insertions, so the entry with the least handle is found first. -/
theorem Sane.entryOf?_eq_some (hr : r.Sane) (hd : d ∈ r.entries)
    (hfirst : ∀ e ∈ r.entries, e.tag = d.tag → d.handle ≤ e.handle) : r.entryOf? d.tag = some d := by
  cases he : r.entryOf? d.tag with
  | none => exact absurd (beq_self_eq_true d.tag) (List.find?_eq_none.1 he d hd)
  | some e =>
    rw [entryOf?] at he
    obtain ⟨htag, before, after, hentries, hbefore⟩ := List.find?_eq_some_iff_append.1 he
    have hle := hfirst e (List.mem_of_find?_eq_some he) (beq_iff_eq.1 htag)
    have hascending := hr.ascending
    rw [handles, List.pairwise_map, hentries, List.pairwise_append, List.pairwise_cons] at hascending
    rw [hentries] at hd
    rcases List.mem_append.1 hd with hd | hd
    · have hother := hbefore d hd
      rw [beq_self_eq_true] at hother
      cases hother
    · rcases List.mem_cons.1 hd with rfl | hd
      · rfl
      · exact absurd (hascending.2.1.1 d hd) (Nat.not_lt.2 hle)

/-- An entry, with the regulator of the source for its tag, if the source has the tag. -/
def copied (source : Registry α V) (e : Entry α W) : Entry α W :=
  { e with regulator := (source.entryOf? e.tag).elim e.regulator (·.regulator) }

omit [Scalar α] in
/-- An imprint goes through the target entry by entry. -/
theorem imprint_eq (source : Registry α V) (target : Registry α W) :
    source.imprint target = { target with entries := target.entries.map source.copied } := by
  unfold imprint
  congr 2
  funext e
  unfold copied
  cases source.entryOf? e.tag with
  | none => rfl
  | some d => rfl

omit [Scalar α] in
theorem copied_copied (source : Registry α V) (e : Entry α W) :
    source.copied (source.copied e) = source.copied e := by
  change { e with regulator := (source.entryOf? e.tag).elim (source.copied e).regulator (·.regulator) } =
    source.copied e
  unfold copied
  cases source.entryOf? e.tag with
  | none => rfl
  | some d => rfl

omit [Scalar α] in
theorem imprint_imprint (source : Registry α V) (target : Registry α W) :
    source.imprint (source.imprint target) = source.imprint target := by
  rw [imprint_eq, imprint_eq, List.map_map]
  congr 2
  funext e
  exact source.copied_copied e

theorem regulator?_imprint (hs : source.Sane) (ht : target.Sane) (he : e ∈ target.entries) :
    (source.imprint target).regulator? e.handle = some (source.copied e).regulator := by
  have hmem : source.copied e ∈ (source.imprint target).entries := by
    rw [imprint_eq]
    exact List.mem_map_of_mem he
  exact congrArg (Option.map Entry.regulator) (entry?_eq_some (hs.imprint ht).nodup_handles hmem)

/-- A target with the same tags cannot be told from its source after an imprint. -/
theorem alike_imprint (hs : source.Sane) (htags : target.entries.map (·.tag) = source.entries.map (·.tag))
    (hnodup : (source.entries.map (·.tag)).Nodup) (hthreshold : target.threshold = source.threshold) :
    (source.imprint target).Alike source := by
  refine ⟨List.ext_getElem? fun i => ?_, hthreshold⟩
  have htag := congrArg (·[i]?) htags
  simp only [List.getElem?_map] at htag
  rw [imprint_eq, List.map_map, List.getElem?_map, List.getElem?_map]
  cases hd : source.entries[i]? with
  | none =>
    rw [hd, Option.map_none, Option.map_eq_none_iff] at htag
    rw [htag]
    rfl
  | some d =>
    rw [hd, Option.map_some] at htag
    obtain ⟨e, he, htag⟩ := Option.map_eq_some_iff.1 htag
    have hmem := List.mem_of_getElem? hd
    have hentry : source.entryOf? e.tag = some d := by
      rw [htag]
      refine hs.entryOf?_eq_some hmem fun d' hd' htag' => Nat.le_of_eq ?_
      rw [List.inj_on_of_nodup_map hnodup hd' hmem htag']
    rw [he, Option.map_some, Option.map_some, Function.comp_apply, Entry.route, Entry.route, copied, hentry,
      ← htag]
    rfl

/-- An imprint gives every entry of the target the regulator of the entry that was first inserted into the
source under its tag, and leaves it its own if there is none. It changes nothing else, and if it is done again
it changes nothing. Where the target has the tags of the source in the same order, each of them once, and
its threshold, both rank the entries at the same places from then on. -/
theorem imprint_copies_routes {source : Registry α V} {target : Registry α W} [Scalar.Numeric α]
    (hs : source.Reached) (ht : target.Reached) :
    let imprinted := source.imprint target
    (∀ e ∈ target.entries,
      (∀ d ∈ source.entries, d.tag = e.tag →
        (∀ d' ∈ source.entries, d'.tag = e.tag → d.handle ≤ d'.handle) →
          imprinted.regulator? e.handle = some d.regulator) ∧
      ((∀ d ∈ source.entries, d.tag ≠ e.tag) → imprinted.regulator? e.handle = some e.regulator)) ∧
      imprinted.entries.map (fun e => (e.handle, e.tag, e.value)) =
        target.entries.map (fun e => (e.handle, e.tag, e.value)) ∧
      imprinted.next = target.next ∧ imprinted.threshold = target.threshold ∧
      source.imprint imprinted = imprinted ∧
      (target.entries.map (·.tag) = source.entries.map (·.tag) → (source.entries.map (·.tag)).Nodup →
        target.threshold = source.threshold → ∀ query n,
          (imprinted.matchRanked query n).map (imprinted.handles.idxOf ·) =
            (source.matchRanked query n).map (source.handles.idxOf ·)) := by
  intro imprinted
  refine ⟨fun e he => ⟨fun d hd htag hfirst => ?_, fun hnone => ?_⟩, ?_, rfl, rfl,
    imprint_imprint source target, fun htags hnodup hthreshold query n => ?_⟩
  · rw [regulator?_imprint hs.sane ht.sane he, copied, ← htag, hs.sane.entryOf?_eq_some hd (htag ▸ hfirst)]
    rfl
  · have hentry : source.entryOf? e.tag = none :=
      List.find?_eq_none.2 fun d hd htag => hnone d hd (beq_iff_eq.1 htag)
    rw [regulator?_imprint hs.sane ht.sane he, copied, hentry]
    rfl
  · change (source.imprint target).entries.map _ = _
    rw [imprint_eq, List.map_map]
    rfl
  · exact (alike_imprint hs.sane htags hnodup hthreshold).matchRanked_eq (hs.sane.imprint ht.sane) hs.sane
      query n

/-- The first entry of the source was removed and the next one is held back, so its handles are others than
those of the target, and it ranks its entries the other way. -/
theorem imprint_copies_routes_held_back :
    ∃ (source : Registry Float Nat) (target : Registry Float Bool), source.Reached ∧ target.Reached ∧
      source.handles = [1, 2] ∧ target.handles = [0, 1] ∧
      source.matchRanked ⟨1⟩ 2 = [2, 1] ∧ target.matchRanked ⟨1⟩ 2 = [0, 1] ∧
      (source.imprint target).regulator? 0 = some ⟨Scalar.ratio 1 8, 4⟩ ∧
      ((source.imprint target).matchRanked ⟨1⟩ 2).map ((source.imprint target).handles.idxOf ·) =
        (source.matchRanked ⟨1⟩ 2).map (source.handles.idxOf ·) := by
  have hinserted : Reached (_ : Registry Float Nat) :=
    (((Reached.empty (Scalar.ratio 1 2)).insert ⟨5⟩ 10).insert ⟨1⟩ 20).insert ⟨3⟩ 30
  have hs := (hinserted.erase 0).setRegulator
    (show setRegulator? _ 1 (Scalar.ratio 1 8) 4 = some _ from rfl)
  have ht : Reached (_ : Registry Float Bool) :=
    ((Reached.empty (Scalar.ratio 1 2)).insert ⟨1⟩ true).insert ⟨3⟩ false
  have hcopies := imprint_copies_routes hs ht
  refine ⟨_, _, hs, ht, by decide +kernel, by decide +kernel, by decide +kernel, by decide +kernel, ?_, ?_⟩
  · exact (hcopies.1 ⟨0, ⟨1⟩, true, .neutral⟩ (by decide +kernel)).1 ⟨1, ⟨1⟩, 20, Scalar.ratio 1 8, 4⟩
      (by decide +kernel) rfl (by decide +kernel)
  · exact hcopies.2.2.2.2.2 (by decide +kernel) (by decide +kernel) (by decide +kernel) ⟨1⟩ 2

end Registry

end Vivarium
