import Vivarium.Proofs.Membrane.Parity
/-!
# How long entries stay

An entry stays as long as decays leave more than two of its multiplicity. A bringer is registered with one
more than twice its duration and a blocker with twice its duration. So of two entries registered together for
the same duration the bringer stays for one decay more.
-/
namespace Vivarium

namespace Membrane

variable {before between later : List Act} {a : Act} {tag : Tag} {v w : UInt32} {k : Nat}

/-- The act neither clears the membrane nor gives the tag a new multiplicity. -/
def Retains (tag : Tag) (a : Act) : Prop := a ≠ .clear ∧ Spares tag a

theorem retains_of_entry?_eq_some {s : Tag} (ha : a.entry? = some (s, v)) (hs : s ≠ tag) :
    Retains tag a := by
  constructor
  · rintro rfl
    cases ha
  · intro w hw
    exact hs (Prod.mk.inj (Option.some.inj (ha.symm.trans hw))).1

/-- As long as nothing takes its place, what was registered is the latest under its tag. -/
theorem latest_of_retains (ha : a.entry? = some (tag, v)) (hlater : ∀ b ∈ later, Retains tag b) :
    Latest (before ++ a :: later) tag w k ↔ w = v ∧ later.count .decay = k := by
  induction later using List.reverseRecOn generalizing k with
  | nil =>
    rw [latest_register ha, if_pos rfl, List.count_nil]
    exact and_congr_right fun _ => eq_comm
  | append_singleton later b ih =>
    obtain ⟨hinit, hb⟩ := List.forall_mem_append.1 hlater
    obtain ⟨hclear, hspares⟩ := hb b List.mem_cons_self
    rw [← List.cons_append, ← List.append_assoc, latest_concat, List.count_append]
    simp only [ih hinit]
    constructor
    · rintro (⟨hentry, -⟩ | ⟨-, j, ⟨rfl, rfl⟩, hk⟩)
      · exact absurd hentry (hspares w)
      · exact ⟨rfl, hk⟩
    · rintro ⟨rfl, hk⟩
      exact .inr ⟨⟨hclear, hspares⟩, _, ⟨rfl, rfl⟩, hk⟩

variable {α : Type} [Scalar α]

/-- The membrane holds the multiplicity that its acts leave to a tag, and no other. -/
theorem multiplicity?_after_eq_some_iff (threshold : α) (acts : List Act) :
    (after threshold acts).multiplicity? tag = some v ↔ Leaves acts tag v := by
  rw [(after_spec threshold acts).1.multiplicity?_eq_some_iff]
  exact (tracks_after threshold acts).row tag v

/-- The entry is there until decays have left no more than two of its multiplicity, and one more came. -/
theorem isSome_multiplicity?_iff (threshold : α) (ha : a.entry? = some (tag, v))
    (hlater : ∀ b ∈ later, Retains tag b) :
    ((after threshold (before ++ a :: later)).multiplicity? tag).isSome ↔
      later.count .decay = 0 ∨ 2 * later.count .decay < v.toNat := by
  rw [Option.isSome_iff_exists]
  simp only [multiplicity?_after_eq_some_iff, Leaves, latest_of_retains ha hlater]
  constructor
  · rintro ⟨w, _, _, ⟨rfl, rfl⟩, hleft, -⟩
    exact hleft
  · intro hleft
    have hlt : v.toNat - 2 * later.count .decay < 2 ^ 32 :=
      Nat.lt_of_le_of_lt (Nat.sub_le _ _) v.toNat_lt
    exact ⟨.ofNat (v.toNat - 2 * later.count .decay), v, _, ⟨rfl, rfl⟩, hleft,
      UInt32.toNat_ofNat_of_lt hlt⟩

/-- What is registered in between is registered without a decay, so the decays that come after both are
those that come after the first. -/
theorem count_decay_between {b : Act} {s : Tag} (hb : b.entry? = some (s, v))
    (hbetween : ∀ a ∈ between, a ≠ .decay) :
    (between ++ b :: later).count .decay = later.count .decay := by
  have hnone : between.count .decay = 0 := List.count_eq_zero.2 fun h => hbetween _ h rfl
  have hne : b ≠ .decay := by
    rintro rfl
    cases hb
  rw [List.count_append, hnone, Nat.zero_add, List.count_cons_of_ne hne]

/-- Of two registrations with no decay between them, the first stays by its own multiplicity and the decays
that came after the second, and so does the second. -/
theorem isSome_multiplicity?_pair (threshold : α) {s t : Tag} (hst : s ≠ t) {a b : Act}
    (ha : a.entry? = some (s, v)) (hb : b.entry? = some (t, w))
    (hbetween : ∀ c ∈ between, c ≠ .decay ∧ Retains s c)
    (hlater : ∀ c ∈ later, Retains s c ∧ Retains t c) :
    let m := after threshold (before ++ a :: between ++ b :: later)
    ((m.multiplicity? s).isSome ↔ later.count .decay = 0 ∨ 2 * later.count .decay < v.toNat) ∧
      ((m.multiplicity? t).isSome ↔ later.count .decay = 0 ∨ 2 * later.count .decay < w.toNat) := by
  constructor
  · have hretains : ∀ c ∈ between ++ b :: later, Retains s c := by
      intro c hc
      rcases List.mem_append.1 hc with hc | hc
      · exact (hbetween c hc).2
      · rcases List.mem_cons.1 hc with rfl | hc
        · exact retains_of_entry?_eq_some hb hst.symm
        · exact (hlater c hc).1
    rw [List.append_assoc, List.cons_append, isSome_multiplicity?_iff threshold ha hretains,
      count_decay_between hb fun c hc => (hbetween c hc).1]
  · exact isSome_multiplicity?_iff threshold hb fun c hc => (hlater c hc).2

/-- A bringer and a blocker are registered for the same duration, in either order and with no decay between
them; later other tags may be registered while decays pass. The bringer stays until more decays have passed
than its duration says, the blocker until as many have. So after as many decays as the duration says, and only
then, one of them is there and the other is not. -/
theorem bringer_outlasts_blocker (threshold : α) (before between later : List Act) {t u : Tag} (htu : t ≠ u)
    {d : UInt32} (hpos : 1 ≤ d.toNat) (hd : d.toNat < 2 ^ 31)
    (hbetween : ∀ a ∈ between, a ≠ .decay ∧ Retains t a ∧ Retains u a)
    (hlater : ∀ a ∈ later, Retains t a ∧ Retains u a) {acts : List Act}
    (hacts : acts = before ++ .registerBringer t d :: between ++ .registerBlocker u d :: later ∨
      acts = before ++ .registerBlocker u d :: between ++ .registerBringer t d :: later) :
    let m := after threshold acts
    let decays := later.count .decay
    ((m.multiplicity? t).isSome ↔ decays ≤ d.toNat) ∧ ((m.multiplicity? u).isSome ↔ decays < d.toNat) ∧
      (((m.multiplicity? t).isSome ↔ (m.multiplicity? u).isSome) ↔ decays ≠ d.toNat) := by
  intro m decays
  have hpair : ((m.multiplicity? t).isSome ↔
        decays = 0 ∨ 2 * decays < (HalfWord.succ (HalfWord.double d)).toNat) ∧
      ((m.multiplicity? u).isSome ↔ decays = 0 ∨ 2 * decays < (HalfWord.double d).toNat) := by
    rcases hacts with rfl | rfl
    · exact isSome_multiplicity?_pair threshold htu rfl rfl
        (fun a ha => ⟨(hbetween a ha).1, (hbetween a ha).2.1⟩) hlater
    · exact (isSome_multiplicity?_pair threshold htu.symm rfl rfl
        (fun a ha => ⟨(hbetween a ha).1, (hbetween a ha).2.2⟩) fun a ha => (hlater a ha).symm).symm
  have hbringer : (m.multiplicity? t).isSome ↔ decays ≤ d.toNat := by
    rw [hpair.1, HalfWord.toNat_succ, HalfWord.toNat_double]
    omega
  have hblocker : (m.multiplicity? u).isSome ↔ decays < d.toNat := by
    rw [hpair.2, HalfWord.toNat_double]
    omega
  refine ⟨hbringer, hblocker, ?_⟩
  rw [hbringer, hblocker]
  omega

/-- A blocker comes first, a bringer follows, and the duration passes while a third tag is registered. -/
theorem bringer_outlasts_blocker_wake :
    let m := after (Scalar.ratio 1 2 : Float) ([.register (.new 5) 9] ++ .registerBlocker (.new 6) 2 ::
      [.register (.new 7) 3] ++ .registerBringer (.new 5) 2 :: [.decay, .registerBringer (.new 9) 1, .decay])
    (m.multiplicity? (.new 5)).isSome ∧ ¬(m.multiplicity? (.new 6)).isSome := by
  intro m
  have hretains : ∀ a ∈ [Act.decay, .registerBringer (.new 9) 1, .decay],
      Retains (.new 5) a ∧ Retains (.new 6) a := by
    intro a ha
    have hdecay (tag : Tag) : Retains tag .decay := ⟨nofun, nofun⟩
    rcases List.mem_cons.1 ha with rfl | ha
    · exact ⟨hdecay _, hdecay _⟩
    rcases List.mem_cons.1 ha with rfl | ha
    · exact ⟨retains_of_entry?_eq_some rfl (by decide), retains_of_entry?_eq_some rfl (by decide)⟩
    · obtain rfl := List.mem_singleton.1 ha
      exact ⟨hdecay _, hdecay _⟩
  have hbetween : ∀ a ∈ [Act.register (.new 7) 3],
      a ≠ .decay ∧ Retains (.new 5) a ∧ Retains (.new 6) a := by
    intro a ha
    obtain rfl := List.mem_singleton.1 ha
    exact ⟨nofun, retains_of_entry?_eq_some rfl (by decide), retains_of_entry?_eq_some rfl (by decide)⟩
  obtain ⟨hbringer, hblocker, -⟩ := bringer_outlasts_blocker (Scalar.ratio 1 2 : Float)
    [.register (.new 5) 9] [.register (.new 7) 3] [.decay, .registerBringer (.new 9) 1, .decay]
    (show Tag.new 5 ≠ Tag.new 6 by decide) (show 1 ≤ UInt32.toNat 2 by decide) (by decide) hbetween hretains
    (.inr rfl)
  exact ⟨hbringer.2 (by decide), fun h => absurd (hblocker.1 h) (by decide)⟩

/-- Both are registered for one qualifying tick, and it leaves only one of them. -/
theorem blocker_gone_before_bringer :
    let m := after (0 : Float) [.registerBringer (.new 1) 1, .registerBlocker (.new 2) 1, .decay]
    m.multiplicity? (.new 1) = some 1 ∧ m.multiplicity? (.new 2) = none := by
  intro m
  obtain ⟨hlinked, -, htable⟩ := after_spec (0 : Float)
    [.registerBringer (.new 1) 1, .registerBlocker (.new 2) 1, .decay]
  have hrows : m.toList = [(.new 1, 1)] := htable.trans (by decide)
  constructor
  · exact hlinked.multiplicity?_eq_some_iff.2 (by rw [hrows]; exact List.mem_cons_self)
  · rw [Option.eq_none_iff_forall_ne_some]
    intro v hv
    have hmem : (Tag.new 2, v) ∈ m.toList := hlinked.multiplicity?_eq_some_iff.1 hv
    rw [hrows, List.mem_singleton] at hmem
    exact absurd (Prod.mk.inj hmem).1 (by decide)

end Membrane

end Vivarium
