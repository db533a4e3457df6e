import Mathlib.Data.List.Nodup
import Mathlib.Data.Set.Function
import Vivarium.Proofs.Tag
import Vivarium.Trigger
/-!
# The table of triggers

Triggers are listed in the order of their slots. Which slot a trigger has depends on the number of levels,
and so does the list. Main statement: whatever that number, the triggers whose level, if they have one, is
below it are those that are listed, their slots are the places of the table, one each, and the two tags that
stand there are complements.
-/
namespace Vivarium

namespace Trigger

variable {nlev i : Nat} {t : Trigger}

/-! ## The list -/

/-- The level that a trigger is about, if it is about one, is a level. -/
def OfLevels (nlev : Nat) : Trigger → Prop
  | channelMate level | neighborExpired level => level < nlev
  | _ => True

/-- The walk comes to all triggers of the levels there are. -/
theorem mem_all_iff : t ∈ all nlev ↔ t.OfLevels nlev := by
  cases t <;> simp [all, OfLevels]

instance (nlev : Nat) (t : Trigger) : Decidable (t.OfLevels nlev) := decidable_of_iff _ mem_all_iff

/-- The order of evaluation is the order of the slots. -/
theorem map_slot_all (nlev : Nat) : (all nlev).map (slot nlev) = List.range (count nlev) := by
  have hcount : count nlev = 5 + nlev + 5 + nlev + 3 := by
    rw [count]
    omega
  have hneighbor : [propaguleChild, propaguleParent, neighborLive, neighborPoorer, neighborOlder].map
      (slot nlev) = (List.range 5).map (5 + nlev + ·) := by
    simp +arith [slot, List.range_succ]
  have hexpired : (List.range nlev).map (slot nlev ∘ neighborExpired) =
      (List.range nlev).map (5 + nlev + 5 + ·) :=
    List.map_congr_left fun level _ => by
      simp only [Function.comp_apply, slot]
      omega
  have hlast : [update, justBorn, stochastic].map (slot nlev) =
      (List.range 3).map (5 + nlev + 5 + nlev + ·) := by
    simp +arith [slot, List.range_succ]
  simp only [all, List.map_append, List.map_map, hneighbor, hexpired, hlast, hcount, List.range_add]
  rfl

theorem nodup_map_slot (nlev : Nat) : ((all nlev).map (slot nlev)).Nodup := by
  rw [map_slot_all]
  exact List.nodup_range

/-- The slot of a trigger is its place in the walk. -/
theorem slot_getElem (h : i < (all nlev).length) : (all nlev)[i].slot nlev = i := by
  have hslots : i < ((all nlev).map (slot nlev)).length := by rwa [List.length_map]
  calc (all nlev)[i].slot nlev
    _ = ((all nlev).map (slot nlev))[i] := (List.getElem_map _).symm
    _ = i := by simp only [map_slot_all, List.getElem_range]

/-! ## Slots -/

theorem mem_range_count_iff : i ∈ List.range (count nlev) ↔ ∃ t ∈ all nlev, t.slot nlev = i := by
  rw [← map_slot_all, List.mem_map]

/-- Every trigger that is evaluated has a slot in the table. -/
theorem slot_lt (h : t ∈ all nlev) : t.slot nlev < count nlev :=
  List.mem_range.1 (mem_range_count_iff.2 ⟨t, h, rfl⟩)

/-- Each slot is that of one trigger. -/
theorem bijOn_slot (nlev : Nat) : Set.BijOn (slot nlev) {t | t.OfLevels nlev} {i | i < count nlev} := by
  simp only [← mem_all_iff]
  refine ⟨fun t ht => slot_lt ht, fun t ht u hu he => ?_, fun i hi => ?_⟩
  · exact List.inj_on_of_nodup_map (nodup_map_slot nlev) ht hu he
  · exact mem_range_count_iff.1 (List.mem_range.2 hi)

end Trigger

namespace TriggerTags

variable {seed : UInt64} {nlev : Nat} {t : Trigger}

/-! ## Tags -/

/-- The table has as many tags of either kind as there are slots. -/
theorem size_new (seed : UInt64) (nlev : Nat) :
    (new seed nlev).pros.size = Trigger.count nlev ∧
      (new seed nlev).antis.size = Trigger.count nlev := by
  have hlength : (tags (Trigger.count nlev) (.ofSeed (seed + 1))).length = Trigger.count nlev := by
    rw [tags, List.length_map, Generator.length_draw]
  refine ⟨?_, ?_⟩
  · rw [new, List.size_toArray, hlength]
  · rw [new, List.size_toArray, List.length_map, hlength]

/-- The two sides of a trigger have opposite tags. -/
theorem anti?_new (seed : UInt64) (nlev : Nat) (t : Trigger) :
    (new seed nlev).anti? t = ((new seed nlev).pro? t).map (·.toggled) := by
  simp [new, pro?, anti?]

theorem exists_pro? (h : t ∈ Trigger.all nlev) : ∃ pro, (new seed nlev).pro? t = some pro :=
  ⟨_, Array.getElem?_eq_getElem ((size_new seed nlev).1.symm ▸ Trigger.slot_lt h)⟩

theorem exists_both (h : t ∈ Trigger.all nlev) :
    ∃ pro anti, (new seed nlev).pro? t = some pro ∧ (new seed nlev).anti? t = some anti := by
  obtain ⟨pro, hpro⟩ := @exists_pro? seed _ _ h
  exact ⟨pro, pro.toggled, hpro, by rw [anti?_new, hpro, Option.map_some]⟩

/-- The tags of a table are drawn, and so keep to the tag width. -/
theorem narrow_of_pro? {pro : Tag} (h : (new seed nlev).pro? t = some pro) : pro.Narrow := by
  have hmem : pro ∈ tags (Trigger.count nlev) (.ofSeed (seed + 1)) := by
    simpa [new] using Array.mem_of_getElem? h
  obtain ⟨word, -, rfl⟩ := List.mem_map.1 hmem
  exact Tag.narrow_new word

/-- Slots and triggers correspond. The list has one entry for each slot, in the order of slots, and no trigger
twice; it holds the triggers whose level, if they have one, is below the number of levels. Each of these has a
slot of its own within the table, whatever the seed, and the tags there differ in all bits of the width. -/
theorem slots_correspond (nlev : Nat) :
    (Trigger.all nlev).length = Trigger.count nlev ∧ (Trigger.all nlev).Nodup ∧
    (∀ (i : Nat) (h : i < (Trigger.all nlev).length), (Trigger.all nlev)[i].slot nlev = i) ∧
    (∀ t, t ∈ Trigger.all nlev ↔ t.OfLevels nlev) ∧
    Set.BijOn (Trigger.slot nlev) {t | t.OfLevels nlev} {i | i < Trigger.count nlev} ∧
    ∀ (seed : UInt64) (t : Trigger), t.OfLevels nlev →
      t.slot nlev < (new seed nlev).pros.size ∧ t.slot nlev < (new seed nlev).antis.size ∧
      ∃ pro, (new seed nlev).pro? t = some pro ∧ (new seed nlev).anti? t = some pro.toggled ∧
        pro.hamming pro.toggled = Tag.width := by
  refine ⟨Trigger.length_all nlev, (Trigger.nodup_map_slot nlev).of_map, fun i h => Trigger.slot_getElem h,
    fun t => Trigger.mem_all_iff, Trigger.bijOn_slot nlev, fun seed t ht => ?_⟩
  have hmem := Trigger.mem_all_iff.2 ht
  obtain ⟨hpros, hantis⟩ := size_new seed nlev
  obtain ⟨pro, hpro⟩ := @exists_pro? seed _ _ hmem
  refine ⟨hpros.symm ▸ Trigger.slot_lt hmem, hantis.symm ▸ Trigger.slot_lt hmem, pro, hpro, ?_, ?_⟩
  · rw [anti?_new, hpro, Option.map_some]
  · exact Tag.hamming_toggled_of_narrow (narrow_of_pro? hpro)

/-- With three levels, for the last trigger that tells of a level. -/
theorem slots_correspond_three :
    (Trigger.neighborExpired 2).OfLevels 3 ∧ (Trigger.neighborExpired 2).slot 3 = 15 ∧
    ¬(Trigger.neighborExpired 3).OfLevels 3 ∧ (Trigger.all 3)[15]? = some (.neighborExpired 2) ∧
    (∀ t : Trigger, t.OfLevels 3 → t.slot 3 = 15 → t = .neighborExpired 2) ∧
    ∃ pro, (new 7 3).pro? (.neighborExpired 2) = some pro ∧
      (new 7 3).anti? (.neighborExpired 2) = some pro.toggled ∧ pro.hamming pro.toggled = Tag.width := by
  obtain ⟨-, -, -, -, hbij, htags⟩ := slots_correspond 3
  have hlevel : (Trigger.neighborExpired 2).OfLevels 3 := by decide
  exact ⟨hlevel, rfl, by decide, rfl, fun t ht he => hbij.injOn ht hlevel he, (htags 7 _ hlevel).2.2⟩

end TriggerTags

end Vivarium
