import Vivarium.Config
import Vivarium.Proofs.Membrane.History
/-!
# Parity

Decay takes two at a time, so an entry keeps the parity with which its tag was registered for as long as
it stays. A bringer is registered with an odd multiplicity whatever its duration, so the messages that it
matches best are admitted. Twice the duration of a blocker is even as long as it fits into a half word; a
duration that is too long for that is registered as the largest half word, which is odd, and such a
blocker admits what it should block.
-/
namespace Vivarium

namespace HalfWord

theorem toNat_double (a : UInt32) : (double a).toNat = min (2 * a.toNat) (2 ^ 32 - 1) := by
  unfold double
  split
  · next h =>
    have hle : a.toNat ≤ 0x7FFFFFFF := UInt32.le_iff_toNat_le.1 h
    rw [UInt32.toNat_add]
    omega
  · next h =>
    have hle : ¬a.toNat ≤ 0x7FFFFFFF := fun hle => h (UInt32.le_iff_toNat_le.2 hle)
    change 2 ^ 32 - 1 = _
    omega

theorem toNat_succ (a : UInt32) : (succ a).toNat = min (a.toNat + 1) (2 ^ 32 - 1) := by
  have hlt := a.toNat_lt
  unfold succ
  split
  · next h =>
    rw [h]
    rfl
  · next h =>
    have htop : a.toNat ≠ 2 ^ 32 - 1 := fun e => h (UInt32.toNat_inj.1 e)
    rw [UInt32.toNat_add, UInt32.toNat_one]
    omega

/-- Both ways to be cut off end at an odd number. -/
theorem odd_succ_double (a : UInt32) : (succ (double a)).toNat % 2 = 1 := by
  rw [toNat_succ, toNat_double]
  omega

/-- From `2 ^ 31` on doubling gives the greatest word, which is odd. -/
theorem odd_double_iff (a : UInt32) : (double a).toNat % 2 = 1 ↔ 2 ^ 31 ≤ a.toNat := by
  rw [toNat_double]
  omega

end HalfWord

namespace Membrane

variable {before later : List Act} {a : Act} {tag : Tag} {v w : UInt32}

def Spares (tag : Tag) (a : Act) : Prop := ∀ v, a.entry? ≠ some (tag, v)

/-- As long as no later act gives the tag another multiplicity, the latest one is the one registered. -/
theorem Latest.eq_of_spares {decays : Nat} (ha : a.entry? = some (tag, v))
    (hlater : ∀ b ∈ later, Spares tag b) (h : Latest (before ++ a :: later) tag w decays) : w = v := by
  induction later using List.reverseRecOn generalizing decays with
  | nil =>
    rw [latest_register ha, if_pos rfl] at h
    exact h.1
  | append_singleton later b ih =>
    rw [← List.cons_append, ← List.append_assoc, latest_concat] at h
    rcases h with ⟨hb, -⟩ | ⟨-, k, hk, -⟩
    · exact absurd hb (hlater b (List.mem_append_right _ List.mem_cons_self) w)
    · exact ih (fun c hc => hlater c (List.mem_append_left _ hc)) hk

/-- What decays leave of a multiplicity has its parity. -/
theorem Leaves.parity (ha : a.entry? = some (tag, v)) (hlater : ∀ b ∈ later, Spares tag b)
    (h : Leaves (before ++ a :: later) tag w) : w.toNat % 2 = v.toNat % 2 := by
  obtain ⟨multiplicity, decays, hlatest, hleft, hw⟩ := h
  obtain rfl := hlatest.eq_of_spares ha hlater
  omega

variable {α : Type} [Scalar α] {threshold : α} {m : Membrane α}

/-- The best match of the query is the entry of the tag. -/
def Matches (m : Membrane α) (query tag : Tag) : Prop :=
  ∃ e, m.registry.best? query = some e ∧ e.tag = tag

/-- The parity of the matching row decides about admission. -/
theorem Matches.exists_mem {query : Tag} (h : m.Matches query tag) :
    ∃ v, (tag, v) ∈ m.toList ∧ (m.admits query = true ↔ v.toNat % 2 = 1) := by
  obtain ⟨e, he, rfl⟩ := h
  refine ⟨e.value, List.mem_map.2 ⟨e, Registry.mem_of_best?_eq_some he, rfl⟩, ?_⟩
  rw [admits, he]
  simp only [beq_iff_eq, ← UInt32.toNat_inj, UInt32.toNat_mod]
  rfl

/-- The parity of the multiplicity that was registered decides about what matches the tag best. -/
theorem Matches.admits_iff (ha : a.entry? = some (tag, v)) (hlater : ∀ b ∈ later, Spares tag b)
    {query : Tag} (h : (after threshold (before ++ a :: later)).Matches query tag) :
    (after threshold (before ++ a :: later)).admits query = true ↔ v.toNat % 2 = 1 := by
  obtain ⟨w, hw, hadmits⟩ := h.exists_mem
  have hleaves : Leaves (before ++ a :: later) tag w := ((tracks_after threshold _).row tag w).1 hw
  rw [hadmits, hleaves.parity ha hlater]

/-- The best match is the nearest of the rows that the acts leave within reach, and the first of these. -/
theorem matches_after_iff [Scalar.Graded α] (threshold : α) (acts : List Act) (query tag : Tag) :
    (after threshold acts).Matches query tag ↔
      ∃ row, FirstLeast (fun row => row.1.hamming query) row
        (near (1 - Scalar.within 1 threshold) query (acts.foldl Act.applyTable [])) ∧ row.1 = tag := by
  obtain ⟨hlinked, hthreshold, htable⟩ := after_spec threshold acts
  rw [← hthreshold, ← htable]
  exact hlinked.exists_best?_iff query (·.1 = tag)

/-- A tag is registered in any membrane, and after that anything may be done that gives it no new
multiplicity. If it was registered as a bringer, a message that it matches best is admitted. If it was
registered as a blocker, such a message is refused, unless the blocker was to last for 2^31 qualifying
ticks or more. -/
theorem bringers_admit_blockers_refuse (threshold : α) (before later : List Act) (tag : Tag)
    (duration : UInt32) (hlater : ∀ a ∈ later, Spares tag a) (query : Tag) :
    let bringer := after threshold (before ++ .registerBringer tag duration :: later)
    let blocker := after threshold (before ++ .registerBlocker tag duration :: later)
    (bringer.Matches query tag → bringer.admits query = true) ∧
      (blocker.Matches query tag → (blocker.admits query = true ↔ 2 ^ 31 ≤ duration.toNat)) := by
  constructor
  · exact fun h => (h.admits_iff rfl hlater).2 (HalfWord.odd_succ_double duration)
  · exact fun h => (h.admits_iff rfl hlater).trans (HalfWord.odd_double_iff duration)

def interlude : List Act := [.decay, .registerBringer (.new 9) 1]

theorem spares_interlude : ∀ a ∈ interlude, Spares (.new 5) a := by
  intro a ha v h
  rcases List.mem_cons.1 ha with rfl | ha
  · cases h
  · obtain rfl := List.mem_singleton.1 ha
    have htag : Tag.new 9 = Tag.new 5 := congrArg Prod.fst (Option.some.inj h)
    exact absurd htag (by decide)

/-- One entry of three is nearest to the query, and it was registered for two qualifying ticks, one of which
has passed: as a bringer it admits the query, as a blocker it refuses it. -/
theorem bringer_and_blocker_of_two :
    let bringer := after (Scalar.ratio 1 2 : Float)
      ([.register (.new 3) 4] ++ .registerBringer (.new 5) 2 :: interlude)
    let blocker := after (Scalar.ratio 1 2 : Float)
      ([.register (.new 3) 4] ++ .registerBlocker (.new 5) 2 :: interlude)
    (∀ a ∈ interlude, Spares (.new 5) a) ∧
      bringer.Matches (.new 4) (.new 5) ∧ bringer.admits (.new 4) = true ∧
      blocker.Matches (.new 4) (.new 5) ∧ blocker.admits (.new 4) = false := by
  intro bringer blocker
  have hbringer : bringer.Matches (.new 4) (.new 5) := by
    rw [matches_after_iff]
    refine ⟨(.new 5, 3), ⟨[(.new 3, 2)], [(.new 9, 3)], ?_, ?_, ?_⟩, rfl⟩ <;> decide +kernel
  have hblocker : blocker.Matches (.new 4) (.new 5) := by
    rw [matches_after_iff]
    refine ⟨(.new 5, 2), ⟨[(.new 3, 2)], [(.new 9, 3)], ?_, ?_, ?_⟩, rfl⟩ <;> decide +kernel
  obtain ⟨hbrings, hblocks⟩ := bringers_admit_blockers_refuse (Scalar.ratio 1 2 : Float)
    [.register (.new 3) 4] interlude (.new 5) 2 spares_interlude (.new 4)
  refine ⟨spares_interlude, hbringer, hbrings hbringer, hblocker, ?_⟩
  rw [← Bool.not_eq_true, hblocks hblocker]
  decide

/-- A blocker that a valid configuration lets last for 2^31 qualifying ticks admits what it matches best. -/
theorem overlong_blocker_admits :
    let config : Config Float := { Config.standard with membraneBlockerDuration := 0x80000000 }
    let m := after config.affinityThreshold [.registerBlocker (.new 5) config.membraneBlockerDuration]
    config.validate = .ok () ∧ m.Matches (.new 5) (.new 5) ∧ m.admits (.new 5) = true := by
  intro config m
  have hmatches : (after config.affinityThreshold
      ([] ++ .registerBlocker (.new 5) config.membraneBlockerDuration :: [])).Matches
        (.new 5) (.new 5) := by
    rw [matches_after_iff]
    exact ⟨(.new 5, HalfWord.top), ⟨[], [], by decide +kernel, by simp, by simp⟩, rfl⟩
  have hspares : ∀ a ∈ ([] : List Act), Spares (.new 5) a := fun a ha => absurd ha List.not_mem_nil
  exact ⟨by decide +kernel, hmatches, (hmatches.admits_iff rfl hspares).2 (by decide)⟩

end Membrane

end Vivarium
