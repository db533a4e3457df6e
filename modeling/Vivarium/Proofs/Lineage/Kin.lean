import Mathlib.Logic.Function.Basic
import Vivarium.Proofs.Lineage.Inheritance
/-!
# Lineages

All that lineages depend on: the identifiers and the propagule of every tile, and the records of
the sires that wait there. On these a world makes steps of six kinds. Each either adds nothing that
was not there before, or is the birth of one child.
-/
namespace Vivarium

/-- The lineages that a tile carries. -/
structure Kin where
  ids : Option (List ChannelId)
  prev : Option ChannelId
  sires : List SireRecord

namespace Kin

/-- One step of the lineages, with the identifiers it draws. -/
inductive Step (nlev : Nat) (k : Nat → Kin) : List ChannelId → (Nat → Kin) → Prop where
  | same : Step nlev k [] k
  | forget (p : Nat) :
      Step nlev k [] (Function.update k p { k p with ids := none, prev := none })
  | dismiss (p : Nat) : Step nlev k [] (Function.update k p { k p with sires := [] })
  | queue (p q : Nat) (r : SireRecord) : r.ids = (k p).ids.getD [] →
      r.prevChan = (if r.level < nlev then (k p).prev else (k p).ids.bind (·[nlev - 1]?)) →
      Step nlev k [] (Function.update k q { k q with sires := (k q).sires ++ [r] })
  | found (p : Nat) (news : List ChannelId) : news.length = nlev →
      Step nlev k news (Function.update k p { k p with ids := some news, prev := none })
  | settle {p r rest news child} : (k p).sires = r :: rest → Begets nlev r.ids news child →
      news.length = (if r.ids = [] then nlev else min r.level nlev) →
      Step nlev k news (Function.update k p ⟨some child, r.prevChan, []⟩)

/-- A tile, or a sire that waits at one, has these identifiers. -/
inductive Holds (k : Nat → Kin) : List ChannelId → Prop where
  | tile {p ids} : (k p).ids = some ids → Holds k ids
  | sire {p r} : r ∈ (k p).sires → Holds k r.ids

/-- A tile, or what a sire would beget within its parent's propagule, has these identifiers and
descends from this propagule. -/
inductive Descends (nlev : Nat) (k : Nat → Kin) : List ChannelId → Option ChannelId → Prop where
  | tile {p ids} : (k p).ids = some ids → Descends nlev k ids (k p).prev
  | sire {p r} : r ∈ (k p).sires → r.level < nlev → Descends nlev k r.ids r.prevChan

/-- A tile or a sire descends from this propagule. -/
inductive Recalls (k : Nat → Kin) : ChannelId → Prop where
  | tile {p id} : (k p).prev = some id → Recalls k id
  | sire {p r id} : r ∈ (k p).sires → r.prevChan = some id → Recalls k id

variable {nlev : Nat} {k k' : Nat → Kin} {ids news : List ChannelId} {prev : Option ChannelId}
  {id : ChannelId} {p : Nat} {x : Kin}

/-! ## What a step can do -/

/-- Who has certain identifiers after a change of one tile had them before, or is that tile or a sire at it.
-/
theorem Holds.of_update (h : Holds (Function.update k p x) ids) :
    Holds k ids ∨ x.ids = some ids ∨ ∃ r ∈ x.sires, r.ids = ids := by
  cases h with
  | @tile q _ h =>
    rw [Function.update_apply] at h
    by_cases hq : q = p
    · rw [if_pos hq] at h
      exact .inr (.inl h)
    · rw [if_neg hq] at h
      exact .inl (.tile h)
  | @sire q r h =>
    rw [Function.update_apply] at h
    by_cases hq : q = p
    · rw [if_pos hq] at h
      exact .inr (.inr ⟨r, h, rfl⟩)
    · rw [if_neg hq] at h
      exact .inl (.sire h)

theorem Descends.of_update (h : Descends nlev (Function.update k p x) ids prev) :
    Descends nlev k ids prev ∨ (x.ids = some ids ∧ x.prev = prev) ∨
      ∃ r ∈ x.sires, r.level < nlev ∧ r.ids = ids ∧ r.prevChan = prev := by
  cases h with
  | @tile q _ h =>
    by_cases hq : q = p
    · rw [hq, Function.update_self] at h ⊢
      exact .inr (.inl ⟨h, rfl⟩)
    · rw [Function.update_of_ne hq] at h ⊢
      exact .inl (.tile h)
  | @sire q r h hl =>
    by_cases hq : q = p
    · rw [hq, Function.update_self] at h
      exact .inr (.inr ⟨r, h, hl, rfl, rfl⟩)
    · rw [Function.update_of_ne hq] at h
      exact .inl (.sire h hl)

theorem Recalls.of_update (h : Recalls (Function.update k p x) id) :
    Recalls k id ∨ x.prev = some id ∨ ∃ r ∈ x.sires, r.prevChan = some id := by
  cases h with
  | @tile q _ h =>
    by_cases hq : q = p
    · rw [hq, Function.update_self] at h
      exact .inr (.inl h)
    · rw [Function.update_of_ne hq] at h
      exact .inl (.tile h)
  | @sire q r _ h hr =>
    by_cases hq : q = p
    · rw [hq, Function.update_self] at h
      exact .inr (.inr ⟨r, h, hr⟩)
    · rw [Function.update_of_ne hq] at h
      exact .inl (.sire h hr)

/-- Nothing is born: what is there afterwards was there before, but for empty lists. -/
structure Passes (nlev : Nat) (k k' : Nat → Kin) : Prop where
  holds : ∀ {ids}, Holds k' ids → Holds k ids ∨ ids = []
  descends : ∀ {ids prev}, Descends nlev k' ids prev → Descends nlev k ids prev ∨ ids = []
  recalls : ∀ {id}, Recalls k' id → Recalls k id ∨ ∃ ids, Holds k ids ∧ id ∈ ids

/-- One child is born. Unless its identifiers are all new, it descends from the propagule its
parent descends from. -/
structure Births (nlev : Nat) (k : Nat → Kin) (news : List ChannelId) (k' : Nat → Kin)
    (parent child : List ChannelId) (prev : Option ChannelId) : Prop where
  held : Holds k parent ∨ parent = []
  begets : Begets nlev parent news child
  ancestry : news.length = nlev ∨ (news.length < nlev ∧ Descends nlev k parent prev)
  recalled : ∀ id, prev = some id → Recalls k id
  holds : ∀ {ids}, Holds k' ids → Holds k ids ∨ ids = child
  descends : ∀ {ids prev'}, Descends nlev k' ids prev' →
    Descends nlev k ids prev' ∨ (ids = child ∧ prev' = prev)
  recalls : ∀ {id}, Recalls k' id → Recalls k id

/-- Taking away from a tile adds nothing. -/
theorem passes_of_le (hids : x.ids = none ∨ x.ids = (k p).ids ∧ x.prev = (k p).prev)
    (hprev : x.prev = none ∨ x.prev = (k p).prev) (hs : x.sires ⊆ (k p).sires) :
    Passes nlev k (Function.update k p x) := by
  constructor
  · intro ids h
    rcases h.of_update with h | h | ⟨r, hr, rfl⟩
    · exact .inl h
    · rcases hids with hn | ⟨he, -⟩
      · rw [hn] at h
        cases h
      · exact .inl (.tile (he ▸ h))
    · exact .inl (.sire (hs hr))
  · intro ids prev h
    rcases h.of_update with h | ⟨hx, rfl⟩ | ⟨r, hr, hl, rfl, rfl⟩
    · exact .inl h
    · rcases hids with hn | ⟨he, hp⟩
      · rw [hn] at hx
        cases hx
      · rw [hp]
        exact .inl (.tile (he ▸ hx))
    · exact .inl (.sire (hs hr) hl)
  · intro id h
    rcases h.of_update with h | h | ⟨r, hr, h⟩
    · exact .inl h
    · cases hprev with
      | inl hn =>
        rw [hn] at h
        cases h
      | inr he => exact .inl (.tile (he ▸ h))
    · exact .inl (.sire (hs hr) h)

/-- The record of a sire says of its parent what the parent's tile says, or names the parent's own
propagule. -/
theorem passes_queue (q : Nat) {r : SireRecord} (hids : r.ids = (k p).ids.getD [])
    (hprev : r.prevChan = if r.level < nlev then (k p).prev else (k p).ids.bind (·[nlev - 1]?)) :
    Passes nlev k (Function.update k q { k q with sires := (k q).sires ++ [r] }) := by
  have hheld : Holds k r.ids ∨ r.ids = [] := by
    cases hk : (k p).ids with
    | none => exact .inr (by rw [hids, hk]; rfl)
    | some ids =>
      rw [hids, hk]
      exact .inl (.tile hk)
  constructor
  · intro ids h
    rcases h.of_update with h | h | ⟨s, hs, rfl⟩
    · exact .inl h
    · exact .inl (.tile h)
    · rcases List.mem_append.1 hs with hs | hs
      · exact .inl (.sire hs)
      · rw [List.mem_singleton.1 hs]
        exact hheld
  · intro ids prev h
    rcases h.of_update with h | ⟨hx, rfl⟩ | ⟨s, hs, hl, rfl, rfl⟩
    · exact .inl h
    · exact .inl (.tile hx)
    · rcases List.mem_append.1 hs with hs | hs
      · exact .inl (.sire hs hl)
      · rw [List.mem_singleton.1 hs] at hl ⊢
        cases hk : (k p).ids with
        | none => exact .inr (by rw [hids, hk]; rfl)
        | some ids =>
          rw [hprev, if_pos hl, hids, hk]
          exact .inl (.tile hk)
  · intro id h
    rcases h.of_update with h | h | ⟨s, hs, h⟩
    · exact .inl h
    · exact .inl (.tile h)
    · rcases List.mem_append.1 hs with hs | hs
      · exact .inl (.sire hs h)
      · rw [List.mem_singleton.1 hs, hprev] at h
        by_cases hl : r.level < nlev
        · rw [if_pos hl] at h
          exact .inl (.tile h)
        · rw [if_neg hl] at h
          obtain ⟨ids, hk, hid⟩ := Option.bind_eq_some_iff.1 h
          exact .inr ⟨ids, .tile hk, List.mem_of_getElem? hid⟩

/-- A birth is the change of one tile, whose waiting sires are not new. -/
theorem births_update {parent child : List ChannelId} (hids : x.ids = some child)
    (hs : x.sires ⊆ (k p).sires) (hheld : Holds k parent ∨ parent = [])
    (hb : Begets nlev parent news child)
    (ha : news.length = nlev ∨ (news.length < nlev ∧ Descends nlev k parent x.prev))
    (hr : ∀ id, x.prev = some id → Recalls k id) :
    Births nlev k news (Function.update k p x) parent child x.prev := by
  constructor
  · exact hheld
  · exact hb
  · exact ha
  · exact hr
  · intro ids h
    rcases h.of_update with h | h | ⟨r, hr, rfl⟩
    · exact .inl h
    · exact .inr (Option.some.inj (h.symm.trans hids))
    · exact .inl (.sire (hs hr))
  · intro ids prev h
    rcases h.of_update with h | ⟨hx, rfl⟩ | ⟨r, hr, hl, rfl, rfl⟩
    · exact .inl h
    · exact .inr ⟨Option.some.inj (hx.symm.trans hids), rfl⟩
    · exact .inl (.sire (hs hr) hl)
  · intro id h
    rcases h.of_update with h | h | ⟨r, hr', h⟩
    · exact h
    · exact hr id h
    · exact .sire (hs hr') h

/-- A step either adds nothing or is one birth. -/
theorem Step.passes_or_births (h : Step nlev k news k') :
    (news = [] ∧ Passes nlev k k') ∨ ∃ parent child prev, Births nlev k news k' parent child prev := by
  cases h with
  | same => exact .inl ⟨rfl, ⟨.inl, .inl, .inl⟩⟩
  | forget p => exact .inl ⟨rfl, passes_of_le (.inl rfl) (.inl rfl) fun _ h => h⟩
  | dismiss p =>
    exact .inl ⟨rfl, passes_of_le (.inr ⟨rfl, rfl⟩) (.inr rfl) fun _ h => by cases h⟩
  | queue p q r hids hprev => exact .inl ⟨rfl, passes_queue q hids hprev⟩
  | found p _ hn =>
    have hb : Begets nlev [] news news := ⟨by simp, hn⟩
    refine .inr ⟨[], news, none, births_update rfl (fun _ h => h) (.inr rfl) hb (.inl hn) ?_⟩
    intro id h
    cases h
  | @settle p r rest _ child hs hb hn =>
    have hr : r ∈ (k p).sires := by
      rw [hs]
      exact List.mem_cons_self
    have ha : news.length = nlev ∨ (news.length < nlev ∧ Descends nlev k r.ids r.prevChan) := by
      by_cases he : news.length = nlev
      · exact .inl he
      · have hl : r.level < nlev ∧ news.length < nlev := by
          by_cases hnil : r.ids = []
          · rw [if_pos hnil] at hn
            exact absurd hn he
          · rw [if_neg hnil] at hn
            omega
        exact .inr ⟨hl.2, .sire hr hl.1⟩
    refine .inr ⟨r.ids, child, r.prevChan,
      births_update rfl (List.nil_subset _) (.inl (.sire hr)) hb ha ?_⟩
    intro id h
    exact .sire hr h

end Kin

end Vivarium
