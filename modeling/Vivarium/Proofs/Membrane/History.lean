import Mathlib.Data.List.Induction
import Vivarium.Proofs.Affinity.Ranking
import Vivarium.Proofs.Membrane.Index
import Vivarium.Proofs.Scalar.Graded
/-!
# The history of a membrane

What a membrane holds can be read off what its owner did. A tag has the multiplicity that was
registered last less two for each decay since, as long as that is left; the tags stand in the order in
which their present stays began. A message is admitted when the first of the nearest entries within the
threshold is odd.
-/
namespace Vivarium

namespace Membrane

inductive Act where
  | register (tag : Tag) (multiplicity : UInt32)
  | registerBringer (tag : Tag) (duration : UInt32)
  | registerBlocker (tag : Tag) (duration : UInt32)
  | decay
  | clear
  deriving DecidableEq, Repr

/-- Tag and multiplicity that an act registers. -/
def Act.entry? : Act → Option (Tag × UInt32)
  | register tag multiplicity => some (tag, multiplicity)
  | registerBringer tag duration => some (tag, HalfWord.succ (HalfWord.double duration))
  | registerBlocker tag duration => some (tag, HalfWord.double duration)
  | decay | clear => none

def Act.apply {α : Type} [Scalar α] (m : Membrane α) : Act → Membrane α
  | register tag multiplicity => m.register tag multiplicity
  | registerBringer tag duration => m.registerBringer tag duration
  | registerBlocker tag duration => m.registerBlocker tag duration
  | decay => m.decay
  | clear => m.clear

def Act.applyTable (t : Table) (a : Act) : Table :=
  match a, a.entry? with
  | _, some (tag, multiplicity) => t.put tag multiplicity
  | .clear, none => []
  | _, none => t.decay

def after {α : Type} [Scalar α] (threshold : α) (acts : List Act) : Membrane α :=
  acts.foldl Act.apply (empty threshold)

/-! ## Histories -/

/-- The multiplicity that was registered last under the tag, and the decays since; nothing was cleared
since. -/
def Latest (acts : List Act) (tag : Tag) (multiplicity : UInt32) (decays : Nat) : Prop :=
  ∃ before a after, acts = before ++ a :: after ∧ a.entry? = some (tag, multiplicity) ∧
    (∀ b ∈ after, b ≠ .clear ∧ ∀ v, b.entry? ≠ some (tag, v)) ∧ after.count .decay = decays

/-- The multiplicity that the acts leave to the tag. -/
def Leaves (acts : List Act) (tag : Tag) (v : UInt32) : Prop :=
  ∃ multiplicity decays, Latest acts tag multiplicity decays ∧
    (decays = 0 ∨ 2 * decays < multiplicity.toNat) ∧
    v.toNat = multiplicity.toNat - 2 * decays

def Present (acts : List Act) (tag : Tag) : Prop := ∃ v, Leaves acts tag v

/-- The act at the place registered the tag when it was absent, and it has been present since. -/
def Entered (acts : List Act) (tag : Tag) (i : Nat) : Prop :=
  (∃ v, acts[i]?.bind Act.entry? = some (tag, v)) ∧ ¬Present (acts.take i) tag ∧
    ∀ j, i < j → j ≤ acts.length → Present (acts.take j) tag

variable {acts : List Act} {a : Act} {tag : Tag} {v : UInt32}

theorem not_latest_nil {decays : Nat} : ¬Latest [] tag v decays := by
  rintro ⟨before, a, after, h, -⟩
  simp at h

/-- One more act registers the tag, or it may only add a decay. -/
theorem latest_concat {decays : Nat} : Latest (acts ++ [a]) tag v decays ↔
    a.entry? = some (tag, v) ∧ decays = 0 ∨
      (a ≠ .clear ∧ ∀ w, a.entry? ≠ some (tag, w)) ∧
        ∃ k, Latest acts tag v k ∧ k + [a].count .decay = decays := by
  constructor
  · rintro ⟨before, b, after, heq, hb, hafter, hcount⟩
    rcases List.eq_nil_or_concat after with rfl | ⟨init, last, rfl⟩
    · obtain ⟨rfl, hlast⟩ := List.append_inj' heq rfl
      obtain rfl := List.singleton_inj.1 hlast
      exact .inl ⟨hb, hcount.symm⟩
    · rw [List.concat_eq_append] at heq hafter hcount
      rw [← List.cons_append, ← List.append_assoc] at heq
      obtain ⟨rfl, hlast⟩ := List.append_inj' heq rfl
      obtain rfl := List.singleton_inj.1 hlast
      rw [List.count_append] at hcount
      exact .inr ⟨hafter a (by simp), _, ⟨before, b, init, rfl, hb,
        fun c hc => hafter c (List.mem_append_left _ hc), rfl⟩, hcount⟩
  · rintro (⟨ha, rfl⟩ | ⟨ha, k, ⟨before, b, after, rfl, hb, hafter, rfl⟩, rfl⟩)
    · exact ⟨acts, a, [], rfl, ha, fun b hb => absurd hb List.not_mem_nil, rfl⟩
    · refine ⟨before, b, after ++ [a], by simp, hb, fun c hc => ?_, List.count_append⟩
      rcases List.mem_append.1 hc with hc | hc
      · exact hafter c hc
      · rwa [List.mem_singleton.1 hc]

theorem not_leaves_nil : ¬Leaves [] tag v := fun ⟨_, _, h, _⟩ => not_latest_nil h

/-- For its own tag the new registration is the latest one; it is none for other tags. -/
theorem latest_register {s : Tag} {w : UInt32} {decays : Nat} (ha : a.entry? = some (s, w)) :
    Latest (acts ++ [a]) tag v decays ↔
      if tag = s then v = w ∧ decays = 0 else Latest acts tag v decays := by
  have hkind : a ≠ .clear ∧ [a].count .decay = 0 := by
    cases a with
    | decay | clear => cases ha
    | _ => exact ⟨nofun, rfl⟩
  rw [latest_concat, ha, hkind.2]
  by_cases htag : tag = s
  · rw [if_pos htag, htag]
    constructor
    · rintro (⟨h, rfl⟩ | ⟨⟨-, hother⟩, -⟩)
      · exact ⟨(Prod.mk.inj (Option.some.inj h)).2.symm, rfl⟩
      · exact absurd rfl (hother w)
    · rintro ⟨rfl, rfl⟩
      exact .inl ⟨rfl, rfl⟩
  · rw [if_neg htag]
    have hother (u : UInt32) : some (s, w) ≠ some (tag, u) := fun h =>
      htag (Prod.mk.inj (Option.some.inj h)).1.symm
    constructor
    · rintro (⟨h, -⟩ | ⟨-, k, hlatest, rfl⟩)
      · exact absurd h (hother v)
      · exact hlatest
    · exact fun hlatest => .inr ⟨⟨hkind.1, hother⟩, decays, hlatest, rfl⟩

theorem leaves_register {s : Tag} {w : UInt32} (ha : a.entry? = some (s, w)) :
    Leaves (acts ++ [a]) tag v ↔ if tag = s then v = w else Leaves acts tag v := by
  unfold Leaves
  simp only [latest_register ha]
  by_cases htag : tag = s
  · simp only [if_pos htag]
    constructor
    · rintro ⟨m, k, ⟨rfl, rfl⟩, -, hv⟩
      exact UInt32.toNat_inj.1 hv
    · rintro rfl
      exact ⟨v, 0, ⟨rfl, rfl⟩, .inl rfl, rfl⟩
  · simp only [if_neg htag]

/-- A decay takes two from what was left, if more was left. -/
theorem leaves_decay : Leaves (acts ++ [.decay]) tag v ↔
    ∃ u, Leaves acts tag u ∧ 2 < u ∧ v = u - 2 := by
  unfold Leaves
  simp only [latest_concat, Act.entry?]
  constructor
  · rintro ⟨m, k, ⟨⟨⟩, -⟩ | ⟨-, j, hlatest, rfl⟩, hleft, hv⟩
    have hone : [Act.decay].count .decay = 1 := rfl
    have hu : (UInt32.ofNat (m.toNat - 2 * j)).toNat = m.toNat - 2 * j :=
      UInt32.toNat_ofNat_of_lt (Nat.lt_of_le_of_lt (Nat.sub_le _ _) m.toNat_lt_size)
    have hmore : 2 < UInt32.ofNat (m.toNat - 2 * j) := by
      rw [UInt32.lt_iff_toNat_lt, hu]
      change 2 < _
      omega
    refine ⟨.ofNat (m.toNat - 2 * j), ⟨m, j, hlatest, by omega, hu⟩, hmore, ?_⟩
    apply UInt32.toNat_inj.1
    rw [UInt32.toNat_sub_of_le _ _ (UInt32.le_of_lt hmore), hu, hv, hone]
    change _ = m.toNat - 2 * j - 2
    omega
  · rintro ⟨u, ⟨m, j, hlatest, hleft, hu⟩, hmore, rfl⟩
    refine ⟨m, j + 1, .inr ⟨⟨nofun, nofun⟩, j, hlatest, rfl⟩, ?_⟩
    have hmore' : 2 < u.toNat := UInt32.lt_iff_toNat_lt.1 hmore
    rw [UInt32.toNat_sub_of_le _ _ (UInt32.le_of_lt hmore)]
    change _ ∧ u.toNat - 2 = _
    omega

theorem not_leaves_clear : ¬Leaves (acts ++ [.clear]) tag v := by
  rintro ⟨m, k, hlatest, -⟩
  rcases latest_concat.1 hlatest with ⟨h, -⟩ | ⟨⟨h, -⟩, -⟩
  · cases h
  · exact h rfl

theorem Entered.lt_length {i : Nat} (h : Entered acts tag i) : i < acts.length := by
  obtain ⟨⟨v, hv⟩, -⟩ := h
  obtain ⟨a, ha, -⟩ := Option.bind_eq_some_iff.1 hv
  exact (List.getElem?_eq_some_iff.1 ha).1

/-- A present stay has one beginning. -/
theorem Entered.unique {i j : Nat} (hi : Entered acts tag i) (hj : Entered acts tag j) : i = j := by
  rcases Nat.lt_trichotomy i j with hlt | rfl | hlt
  · exact absurd (hi.2.2 j hlt (Nat.le_of_lt hj.lt_length)) hj.2.1
  · rfl
  · exact absurd (hj.2.2 i hlt (Nat.le_of_lt hi.lt_length)) hi.2.1

/-- The stay goes on. -/
theorem Entered.concat {i : Nat} (h : Entered acts tag i) (hp : Present (acts ++ [a]) tag) :
    Entered (acts ++ [a]) tag i := by
  have hi := h.lt_length
  obtain ⟨hentry, habsent, hpresent⟩ := h
  refine ⟨?_, ?_, fun j hij hj => ?_⟩
  · rwa [List.getElem?_append_left hi]
  · rwa [List.take_append_of_le_length (Nat.le_of_lt hi)]
  · by_cases hlast : j ≤ acts.length
    · rw [List.take_append_of_le_length hlast]
      exact hpresent j hij hlast
    · rw [List.length_append, List.length_singleton] at hj
      rwa [List.take_of_length_le (by simp; omega)]

/-- The stay begins. -/
theorem entered_concat (ha : a.entry? = some (tag, v)) (habsent : ¬Present acts tag) :
    Entered (acts ++ [a]) tag acts.length := by
  refine ⟨⟨v, ?_⟩, ?_, fun j hlast hj => ?_⟩
  · rw [List.getElem?_concat_length, Option.bind_some, ha]
  · rwa [List.take_left']
    rfl
  · rw [List.take_of_length_le (by simp; omega)]
    exact ⟨v, (leaves_register ha).2 (by rw [if_pos rfl])⟩

end Membrane

/-! ## Tables -/

namespace Table

variable {t : Table} {tag s : Tag} {v w : UInt32}

theorem mem_tags_iff : tag ∈ t.tags ↔ ∃ v, (tag, v) ∈ t := by
  rw [tags, List.mem_map]
  constructor
  · rintro ⟨row, hrow, rfl⟩
    exact ⟨row.2, hrow⟩
  · rintro ⟨v, hrow⟩
    exact ⟨_, hrow, rfl⟩

theorem mem_put : (s, w) ∈ t.put tag v ↔ if s = tag then w = v else (s, w) ∈ t := by
  rw [put]
  by_cases htag : tag ∈ t.tags
  · rw [if_pos htag, List.mem_map]
    constructor
    · rintro ⟨row, hrow, heq⟩
      by_cases hs : row.1 = tag
      · rw [if_pos hs] at heq
        obtain ⟨rfl, rfl⟩ := Prod.mk.inj heq
        rw [if_pos rfl]
      · rw [if_neg hs] at heq
        obtain rfl := heq
        rwa [if_neg hs]
    · by_cases hs : s = tag
      · rw [if_pos hs]
        rintro rfl
        obtain ⟨u, hu⟩ := mem_tags_iff.1 htag
        exact ⟨_, hu, by rw [if_pos rfl, hs]⟩
      · rw [if_neg hs]
        exact fun hrow => ⟨_, hrow, if_neg hs⟩
  · rw [if_neg htag, List.mem_append, List.mem_singleton, Prod.mk.injEq]
    by_cases hs : s = tag
    · rw [if_pos hs, hs]
      constructor
      · rintro (hrow | ⟨-, hv⟩)
        · exact absurd (mem_tags_iff.2 ⟨w, hrow⟩) htag
        · exact hv
      · exact fun hv => .inr ⟨rfl, hv⟩
    · simp [hs]

theorem tags_put : (t.put tag v).tags = if tag ∈ t.tags then t.tags else t.tags ++ [tag] := by
  rw [put]
  split
  · rw [tags, List.map_map, tags]
    apply List.map_congr_left
    intro row _
    simp only [Function.comp_apply]
    split
    · next h => exact h.symm
    · rfl
  · rw [tags, List.map_append]
    rfl

theorem mem_decay : (s, w) ∈ t.decay ↔ ∃ u, (s, u) ∈ t ∧ 2 < u ∧ w = u - 2 := by
  rw [decay, List.mem_filterMap]
  simp only [Option.ite_none_right_eq_some, Option.some.injEq, Prod.mk.injEq, Prod.exists]
  constructor
  · rintro ⟨_, u, hrow, hmore, rfl, rfl⟩
    exact ⟨u, hrow, hmore, rfl⟩
  · rintro ⟨u, hrow, hmore, rfl⟩
    exact ⟨s, u, hrow, hmore, rfl, rfl⟩

theorem tags_decay_sublist (t : Table) : t.decay.tags.Sublist t.tags := by
  induction t with
  | nil => exact .slnil
  | cons row rest ih =>
    rw [decay, List.filterMap_cons]
    split
    · exact ih.cons _
    · next row' h =>
      have hrow : row'.1 = row.1 := by
        split at h
        · rw [← Option.some.inj h]
        · cases h
      simp only [tags, List.map_cons, hrow]
      exact ih.cons_cons _

end Table

namespace Membrane

variable {acts : List Act} {a : Act} {t : Table}

/-- The table has the rows that the acts leave, in the order of their stays. -/
structure Tracks (acts : List Act) (t : Table) : Prop where
  row : ∀ tag v, (tag, v) ∈ t ↔ Leaves acts tag v
  entered : ∀ tag ∈ t.tags, ∃ i, Entered acts tag i
  order : t.tags.Pairwise fun s t => ∃ i j, Entered acts s i ∧ Entered acts t j ∧ i < j

namespace Tracks

theorem mem_tags_iff (h : Tracks acts t) {tag : Tag} : tag ∈ t.tags ↔ Present acts tag := by
  rw [Table.mem_tags_iff]
  exact exists_congr (h.row tag)

/-- The rows that stay are in the order they were in. -/
theorem keep (h : Tracks acts t) {tags : List Tag} (hsub : tags.Sublist t.tags)
    (hp : ∀ tag ∈ tags, Present (acts ++ [a]) tag) :
    (∀ tag ∈ tags, ∃ i, Entered (acts ++ [a]) tag i) ∧
      tags.Pairwise fun s t =>
        ∃ i j, Entered (acts ++ [a]) s i ∧ Entered (acts ++ [a]) t j ∧ i < j := by
  constructor
  · intro tag htag
    obtain ⟨i, hi⟩ := h.entered tag (hsub.subset htag)
    exact ⟨i, hi.concat (hp tag htag)⟩
  · apply (h.order.sublist hsub).imp_of_mem
    rintro s t hs ht ⟨i, j, hi, hj, hij⟩
    exact ⟨i, j, hi.concat (hp s hs), hj.concat (hp t ht), hij⟩

theorem nil : Tracks [] [] :=
  ⟨fun _ _ => ⟨fun h => absurd h List.not_mem_nil, fun h => absurd h not_leaves_nil⟩,
    fun _ h => absurd h List.not_mem_nil, .nil⟩

theorem put (h : Tracks acts t) {tag : Tag} {v : UInt32} (ha : a.entry? = some (tag, v)) :
    Tracks (acts ++ [a]) (t.put tag v) := by
  have hrow : ∀ s w, (s, w) ∈ t.put tag v ↔ Leaves (acts ++ [a]) s w := by
    intro s w
    rw [Table.mem_put, leaves_register ha, h.row]
  have hpresent : ∀ s ∈ t.tags, Present (acts ++ [a]) s := by
    intro s hs
    apply exists_congr (hrow s) |>.1
    rw [← Table.mem_tags_iff, Table.tags_put]
    split
    · exact hs
    · exact List.mem_append_left _ hs
  obtain ⟨hentered, horder⟩ := h.keep (List.Sublist.refl _) hpresent
  by_cases htag : tag ∈ t.tags
  · refine ⟨hrow, ?_, ?_⟩
    · rwa [Table.tags_put, if_pos htag]
    · rwa [Table.tags_put, if_pos htag]
  · have hnew := entered_concat ha fun hp => htag (h.mem_tags_iff.2 hp)
    refine ⟨hrow, ?_, ?_⟩
    · rw [Table.tags_put, if_neg htag]
      intro s hs
      rcases List.mem_append.1 hs with hs | hs
      · exact hentered s hs
      · rw [List.mem_singleton.1 hs]
        exact ⟨_, hnew⟩
    · rw [Table.tags_put, if_neg htag, List.pairwise_append]
      refine ⟨horder, List.pairwise_singleton _ _, fun s hs s' hs' => ?_⟩
      rw [List.mem_singleton.1 hs']
      obtain ⟨i, hi⟩ := h.entered s hs
      exact ⟨i, acts.length, hi.concat (hpresent s hs), hnew, hi.lt_length⟩

theorem decay (h : Tracks acts t) : Tracks (acts ++ [.decay]) t.decay := by
  have hrow : ∀ s w, (s, w) ∈ t.decay ↔ Leaves (acts ++ [.decay]) s w := by
    intro s w
    rw [Table.mem_decay, leaves_decay]
    simp only [h.row]
  have hpresent : ∀ s ∈ t.decay.tags, Present (acts ++ [.decay]) s := fun s hs =>
    (exists_congr (hrow s)).1 (Table.mem_tags_iff.1 hs)
  obtain ⟨hentered, horder⟩ := h.keep (Table.tags_decay_sublist t) hpresent
  exact ⟨hrow, hentered, horder⟩

theorem clear : Tracks (acts ++ [.clear]) [] :=
  ⟨fun _ _ => ⟨fun h => absurd h List.not_mem_nil, fun h => absurd h not_leaves_clear⟩,
    fun _ h => absurd h List.not_mem_nil, .nil⟩

end Tracks

/-- A table that follows the acts has what they leave. -/
theorem tracks_foldl (acts : List Act) : Tracks acts (acts.foldl Act.applyTable []) := by
  induction acts using List.reverseRecOn with
  | nil => exact .nil
  | append_singleton acts a ih =>
    rw [List.foldl_append]
    cases a with
    | register tag v => exact ih.put rfl
    | registerBringer tag v => exact ih.put rfl
    | registerBlocker tag v => exact ih.put rfl
    | decay => exact ih.decay
    | clear => exact .clear

variable {α : Type} [Scalar α] {m : Membrane α}

/-- What an act does to the list of a membrane, it does to a table. -/
theorem Linked.apply (h : m.Linked) (a : Act) : (a.apply m).Linked ∧
    (a.apply m).registry.threshold = m.registry.threshold ∧
    (a.apply m).toList = Act.applyTable m.toList a := by
  cases a with
  | register tag v => exact ⟨h.register tag v, h.threshold_register tag v, h.toList_register tag v⟩
  | registerBringer tag v =>
    exact ⟨h.register tag _, h.threshold_register tag _, h.toList_register tag _⟩
  | registerBlocker tag v =>
    exact ⟨h.register tag _, h.threshold_register tag _, h.toList_register tag _⟩
  | decay => exact ⟨h.decay, rfl, toList_decay m⟩
  | clear => exact ⟨.clear m, rfl, rfl⟩

theorem after_concat (threshold : α) (acts : List Act) (a : Act) :
    after threshold (acts ++ [a]) = a.apply (after threshold acts) := by
  rw [after, List.foldl_append]
  rfl

/-- The list of a membrane is the table of its acts. -/
theorem after_spec (threshold : α) (acts : List Act) :
    (after threshold acts).Linked ∧
    (after threshold acts).registry.threshold = Scalar.within 1 threshold ∧
    (after threshold acts).toList = acts.foldl Act.applyTable [] := by
  induction acts using List.reverseRecOn with
  | nil => exact ⟨.empty threshold, rfl, rfl⟩
  | append_singleton acts a ih =>
    obtain ⟨hlinked, hthreshold, htable⟩ := ih
    obtain ⟨hlinked', hthreshold', htable'⟩ := hlinked.apply a
    rw [after_concat, List.foldl_append]
    refine ⟨hlinked', hthreshold'.trans hthreshold, ?_⟩
    rw [htable', htable]
    rfl

/-- What was done is what the entries tell. -/
theorem tracks_after (threshold : α) (acts : List Act) : Tracks acts (after threshold acts).toList := by
  rw [(after_spec threshold acts).2.2]
  exact tracks_foldl acts

/-! ## Admission -/

def near (limit : α) (query : Tag) (t : Table) : Table :=
  t.filter fun row => decide (row.1.distance query ≤ limit)

variable [Scalar.Graded α]

theorem Linked.qualifying_eq (h : m.Linked) (query : Tag) :
    m.registry.qualifying query =
      (m.registry.entries.filter fun e =>
        decide ((e.tag.distance query : α) ≤ 1 - m.registry.threshold)).map
          fun e => (e.tag.distance query, e) := by
  have hdistance : ∀ e ∈ m.registry.entries, e.distance query = e.tag.distance query := by
    intro e he
    rw [Entry.distance, h.neutral e he]
    exact Scalar.Graded.positivePart_ratio _ (Tag.hamming_le _ _)
  have hclears : ∀ e ∈ m.registry.entries, decide (m.registry.Clears query e) =
      decide ((e.tag.distance query : α) ≤ 1 - m.registry.threshold) := by
    intro e he
    simp only [Registry.Clears, hdistance e he]
  rw [Registry.qualifying_eq, List.filter_congr hclears]
  apply List.map_congr_left
  intro e he
  rw [hdistance e (List.mem_filter.1 he).1]

theorem Linked.best?_eq_some_iff (h : m.Linked) (query : Tag) {e : Entry α UInt32} :
    m.registry.best? query = some e ↔
      FirstLeast (fun e => e.tag.hamming query) e (m.registry.entries.filter fun e =>
        decide ((e.tag.distance query : α) ≤ 1 - m.registry.threshold)) := by
  have hrank : ∀ p ∈ m.registry.qualifying query, ∀ q ∈ m.registry.qualifying query,
      p.1 ≤ q.1 ↔ p.2.tag.hamming query ≤ q.2.tag.hamming query := by
    rw [h.qualifying_eq]
    intro p hp q hq
    obtain ⟨d, -, rfl⟩ := List.mem_map.1 hp
    obtain ⟨e, -, rfl⟩ := List.mem_map.1 hq
    exact Scalar.Graded.ratio_le_ratio _ (Tag.hamming_le _ _) _ (Tag.hamming_le _ _)
  have hhead (p : α × Entry α UInt32) :
      (sortByDistance (m.registry.qualifying query)).head? = some p ↔
        FirstLeast (fun p => p.2.tag.hamming query) p (m.registry.qualifying query) :=
    head?_sortByDistance hrank
  rw [Registry.best?, Registry.ranking, List.head?_map, Option.map_eq_some_iff]
  simp only [hhead]
  rw [h.qualifying_eq]
  simp only [FirstLeast.map_iff]
  constructor
  · rintro ⟨_, ⟨d, rfl, hd⟩, rfl⟩
    exact hd
  · exact fun he => ⟨_, ⟨e, rfl, he⟩, rfl⟩

/-- What is said of the tag and the multiplicity of the best match is said of the first of the nearest
rows. -/
theorem Linked.exists_best?_iff (h : m.Linked) (query : Tag) (P : Tag × UInt32 → Prop) :
    (∃ e, m.registry.best? query = some e ∧ P (e.tag, e.value)) ↔
      ∃ row, FirstLeast (fun row => row.1.hamming query) row
        (near (1 - m.registry.threshold) query m.toList) ∧ P row := by
  have hnear : near (1 - m.registry.threshold) query m.toList =
      (m.registry.entries.filter fun e =>
        decide ((e.tag.distance query : α) ≤ 1 - m.registry.threshold)).map
          fun e => (e.tag, e.value) := by
    rw [near, toList, List.filter_map]
    rfl
  rw [hnear]
  simp only [FirstLeast.map_iff, ← h.best?_eq_some_iff]
  constructor
  · rintro ⟨e, he, hP⟩
    exact ⟨_, ⟨e, rfl, he⟩, hP⟩
  · rintro ⟨_, ⟨e, rfl, he⟩, hP⟩
    exact ⟨e, he, hP⟩

/-- The list of a membrane decides what is admitted. -/
theorem Linked.admits_iff (h : m.Linked) (query : Tag) : m.admits query = true ↔
    ∃ row, FirstLeast (fun row => row.1.hamming query) row
      (near (1 - m.registry.threshold) query m.toList) ∧ row.2 % 2 = 1 := by
  rw [← h.exists_best?_iff query (·.2 % 2 = 1), admits]
  cases m.registry.best? query with
  | none => simp
  | some e => simp

/-- A membrane is an ordered map. After any acts its index and its registry hold the same entries, one
for each tag that the acts leave present, and its list shows each with the multiplicity they leave to
it, in the order in which the stays of the tags began; so a registration overwrites the row of its tag
in place, and an expired tag comes back behind all others. A message is admitted when, among the entries
near enough to its tag, the first of the nearest has an odd multiplicity. -/
theorem refines_table (threshold : α) (acts : List Act) :
    let m := after threshold acts
    (∀ tag h, m.index[tag]? = some h ↔ ∃ e ∈ m.registry.entries, e.tag = tag ∧ e.handle = h) ∧
    (m.registry.entries.map (·.handle)).Nodup ∧
    (Table.tags m.toList).Nodup ∧
    (∀ tag ∈ Table.tags m.toList, ∃ i, Entered acts tag i) ∧
    (Table.tags m.toList).Pairwise (fun s t => ∀ i j, Entered acts s i → Entered acts t j → i < j) ∧
    (∀ tag v, (tag, v) ∈ m.toList ↔ m.multiplicity? tag = some v) ∧
    (∀ tag v, m.multiplicity? tag = some v ↔ Leaves acts tag v) ∧
    (∀ tag v, (m.register tag v).toList = Table.put m.toList tag v) ∧
    (∀ query, m.admits query = true ↔ ∃ row,
      FirstLeast (fun row => row.1.hamming query) row
        (near (1 - Scalar.within 1 threshold) query m.toList) ∧ row.2 % 2 = 1) := by
  obtain ⟨hlinked, hthreshold, -⟩ := after_spec threshold acts
  have htracks := tracks_after threshold acts
  refine ⟨hlinked.index, hlinked.handles, tags_toList _ ▸ hlinked.tags, htracks.entered, ?_, ?_, ?_,
    hlinked.toList_register, fun query => ?_⟩
  · apply htracks.order.imp
    rintro s t ⟨i, j, hi, hj, hij⟩ i' j' hi' hj'
    rwa [hi'.unique hi, hj'.unique hj]
  · exact fun tag v => hlinked.multiplicity?_eq_some_iff.symm
  · exact fun tag v => hlinked.multiplicity?_eq_some_iff.trans (htracks.row tag v)
  · rw [hlinked.admits_iff, hthreshold]

/-- Two tags expire while a third stays, and then the first of them comes back. -/
def relapse : List Act :=
  [.register (.new 3) 3, .registerBlocker (.new 5) 2, .decay, .register (.new 6) 5, .decay,
    .registerBlocker (.new 3) 1]

/-- The tag that came back stands behind the one that stayed; of the two, which differ from the query in
one bit each, the latter decides. -/
theorem refines_table_relapse :
    (after (Scalar.ratio 1 2 : Float) relapse).toList = [(.new 6, 3), (.new 3, 2)] ∧
    (after (Scalar.ratio 1 2 : Float) relapse).multiplicity? (.new 3) = some 2 ∧
    (after (Scalar.ratio 1 2 : Float) relapse).admits (.new 2) = true := by
  have htable : (after (Scalar.ratio 1 2 : Float) relapse).toList = [(.new 6, 3), (.new 3, 2)] := by
    rw [(after_spec _ _).2.2]
    decide
  obtain ⟨-, -, -, -, -, hrow, -, -, hadmits⟩ := refines_table (Scalar.ratio 1 2 : Float) relapse
  refine ⟨htable, (hrow _ _).1 (by rw [htable]; decide), (hadmits _).2 ⟨(.new 6, 3), ?_, by decide⟩⟩
  refine ⟨[], [(.new 3, 2)], ?_, by simp, by decide +kernel⟩
  rw [htable]
  decide +kernel

end Membrane

end Vivarium
