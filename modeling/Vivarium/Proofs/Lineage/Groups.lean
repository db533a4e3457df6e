import Vivarium.Proofs.Lineage.Kin
/-!
# Groups and propagules

As long as every identifier drawn is a new one, groups are nested: lineages that agree at a level
agree above it. And a propagule, the group at the top, descends from one propagule other than
itself. Both survive every step of the lineages.
-/
namespace Vivarium

namespace Begets

variable {nlev l : Nat} {parent news child : List ChannelId}

theorem getElem?_below (h : Begets nlev parent news child) (hl : l < news.length) :
    child[l]? = news[l]? := by
  rw [h.eq, List.getElem?_append_left hl]

theorem getElem?_above (h : Begets nlev parent news child) (hl : news.length ≤ l) :
    child[l]? = parent[l]? := by
  rw [h.eq, List.getElem?_append_right hl, List.getElem?_drop, Nat.add_sub_cancel' hl]

/-- From the level of the birth up the child is its parent. -/
theorem drop_above (h : Begets nlev parent news child) (hl : news.length ≤ l) :
    child.drop l = parent.drop l := by
  rw [h.eq, List.drop_append, List.drop_eq_nil_of_le hl, List.nil_append, List.drop_drop,
    Nat.add_sub_cancel' hl]

end Begets

namespace Kin

/-- Lineages that hold the same identifier at a level hold the same ones above it, all of them drawn
before. -/
structure Grouped (nlev : Nat) (drawn : List ChannelId) (k : Nat → Kin) : Prop where
  length : ∀ {ids}, Holds k ids → ids = [] ∨ ids.length = nlev
  drawn : ∀ {ids id}, Holds k ids → id ∈ ids → id ∈ drawn
  groups : ∀ {ids ids' l id}, Holds k ids → Holds k ids' → ids[l]? = some id → ids'[l]? = some id →
    ids.drop l = ids'.drop l

variable {nlev l : Nat} {k k' : Nat → Kin} {ids news drawn parent child : List ChannelId}
  {prev : Option ChannelId} {id : ChannelId}

/-- A new identifier is not among those drawn before. -/
theorem not_mem_of_fresh (hf : (drawn ++ news).Nodup) (hid : news[l]? = some id) : id ∉ drawn := by
  intro hd
  have hdis := (List.nodup_append.1 hf).2.2
  exact hdis id hd id (List.mem_of_getElem? hid) rfl

/-- The child shares an identifier with another lineage only above those drawn for it, where it is
its parent's. -/
theorem Grouped.of_child (h : Grouped nlev drawn k) (hf : (drawn ++ news).Nodup)
    (hb : Births nlev k news k' parent child prev) (hi : Holds k ids)
    (hc : child[l]? = some id) (hid : ids[l]? = some id) :
    Holds k parent ∧ news.length ≤ l ∧ parent[l]? = some id := by
  by_cases hl : l < news.length
  · rw [hb.begets.getElem?_below hl] at hc
    exact absurd (h.drawn hi (List.mem_of_getElem? hid)) (not_mem_of_fresh hf hc)
  · have hle : news.length ≤ l := Nat.le_of_not_lt hl
    rw [hb.begets.getElem?_above hle] at hc
    rcases hb.held with hp | rfl
    · exact ⟨hp, hle, hc⟩
    · simp at hc

/-- As long as no identifier is drawn twice, births keep lineages grouped. -/
theorem Grouped.step (h : Grouped nlev drawn k) (hs : Step nlev k news k')
    (hf : (drawn ++ news).Nodup) : Grouped nlev (drawn ++ news) k' := by
  rcases hs.passes_or_births with ⟨rfl, hp⟩ | ⟨parent, child, prev, hb⟩
  · rw [List.append_nil]
    constructor
    · intro ids hi
      cases hp.holds hi with
      | inl hi => exact h.length hi
      | inr hi => exact .inl hi
    · intro ids id hi hid
      rcases hp.holds hi with hi | rfl
      · exact h.drawn hi hid
      · cases hid
    · intro ids ids' l id hi hi' hid hid'
      rcases hp.holds hi with hi | rfl
      · rcases hp.holds hi' with hi' | rfl
        · exact h.groups hi hi' hid hid'
        · simp at hid'
      · simp at hid
  · constructor
    · intro ids hi
      rcases hb.holds hi with hi | rfl
      · exact h.length hi
      · exact .inr hb.begets.length
    · intro ids id hi hid
      rcases hb.holds hi with hi | rfl
      · exact List.mem_append_left news (h.drawn hi hid)
      · rw [hb.begets.eq] at hid
        cases List.mem_append.1 hid with
        | inl hid => exact List.mem_append_right drawn hid
        | inr hid =>
          rcases hb.held with hp | rfl
          · exact List.mem_append_left news (h.drawn hp (List.mem_of_mem_drop hid))
          · simp at hid
    · intro ids ids' l id hi hi' hid hid'
      rcases hb.holds hi with hi | rfl
      · rcases hb.holds hi' with hi' | rfl
        · exact h.groups hi hi' hid hid'
        · obtain ⟨hp, hl, hid'⟩ := h.of_child hf hb hi hid' hid
          rw [hb.begets.drop_above hl]
          exact h.groups hi hp hid hid'
      · rcases hb.holds hi' with hi' | rfl
        · obtain ⟨hp, hl, hid⟩ := h.of_child hf hb hi' hid hid'
          rw [hb.begets.drop_above hl]
          exact h.groups hp hi' hid hid'
        · rfl

/-! ## One ancestor for a propagule -/

/-- Lineages of one propagule descend from the same propagule, which is another one. -/
structure Descended (nlev : Nat) (drawn : List ChannelId) (k : Nat → Kin) : Prop where
  drawn : ∀ {id}, Recalls k id → id ∈ drawn
  agree : ∀ {ids ids' prev prev' id}, Descends nlev k ids prev → Descends nlev k ids' prev' →
    ids[nlev - 1]? = some id → ids'[nlev - 1]? = some id → prev = prev'
  apart : ∀ {ids prev id}, Descends nlev k ids prev → ids[nlev - 1]? = some id → prev ≠ some id

theorem Descends.holds (h : Descends nlev k ids prev) : Holds k ids := by
  cases h with
  | tile h => exact .tile h
  | sire h _ => exact .sire h

/-- A child whose propagule is not a new one descends like its parent. -/
theorem Births.child_descends (hb : Births nlev k news k' parent child prev) (hn : 0 < nlev)
    (hf : (drawn ++ news).Nodup) (hc : child[nlev - 1]? = some id) :
    id ∉ drawn ∨ (Descends nlev k parent prev ∧ parent[nlev - 1]? = some id) := by
  rcases hb.ancestry with he | ⟨hl, hd⟩
  · rw [hb.begets.getElem?_below (by omega)] at hc
    exact .inl (not_mem_of_fresh hf hc)
  · rw [hb.begets.getElem?_above (by omega)] at hc
    exact .inr ⟨hd, hc⟩

/-- As long as no identifier is drawn twice, propagules keep their descent. -/
theorem Descended.step (h : Descended nlev drawn k) (hg : Grouped nlev drawn k) (hn : 0 < nlev)
    (hs : Step nlev k news k') (hf : (drawn ++ news).Nodup) :
    Descended nlev (drawn ++ news) k' := by
  rcases hs.passes_or_births with ⟨rfl, hp⟩ | ⟨parent, child, prev, hb⟩
  · rw [List.append_nil]
    constructor
    · intro id hr
      rcases hp.recalls hr with hr | ⟨ids, hi, hid⟩
      · exact h.drawn hr
      · exact hg.drawn hi hid
    · intro ids ids' prev prev' id hd hd' hid hid'
      rcases hp.descends hd with hd | rfl
      · rcases hp.descends hd' with hd' | rfl
        · exact h.agree hd hd' hid hid'
        · simp at hid'
      · simp at hid
    · intro ids prev id hd hid
      rcases hp.descends hd with hd | rfl
      · exact h.apart hd hid
      · simp at hid
  · have born {ids : List ChannelId} {prev' : Option ChannelId} {id : ChannelId}
        (hd : Descends nlev k ids prev') (hid : ids[nlev - 1]? = some id)
        (hc : child[nlev - 1]? = some id) : prev = prev' := by
      rcases hb.child_descends hn hf hc with hnew | ⟨hp, hc⟩
      · exact absurd (hg.drawn hd.holds (List.mem_of_getElem? hid)) hnew
      · exact h.agree hp hd hc hid
    constructor
    · intro id hr
      exact List.mem_append_left news (h.drawn (hb.recalls hr))
    · intro ids ids' prev₁ prev₂ id hd hd' hid hid'
      rcases hb.descends hd with hd | ⟨rfl, rfl⟩
      · rcases hb.descends hd' with hd' | ⟨rfl, rfl⟩
        · exact h.agree hd hd' hid hid'
        · exact (born hd hid hid').symm
      · rcases hb.descends hd' with hd' | ⟨rfl, rfl⟩
        · exact born hd' hid' hid
        · rfl
    · intro ids prev₁ id hd hid
      rcases hb.descends hd with hd | ⟨rfl, rfl⟩
      · exact h.apart hd hid
      · rcases hb.child_descends hn hf hid with hnew | ⟨hp, hc⟩
        · intro he
          exact hnew (h.drawn (hb.recalled id he))
        · exact h.apart hp hc

end Kin

end Vivarium
