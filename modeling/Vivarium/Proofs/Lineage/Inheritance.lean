import Vivarium.Lineage.Channel
/-!
# Inheritance

The identifiers of an offspring are those drawn at its birth, one for every level at which it
starts afresh, and from the level of reproduction up those of its parent.
-/
namespace Vivarium

def SireRecord.renews (r : SireRecord) (level : Nat) : Bool :=
  decide (level < r.level) || r.ids[level]?.isNone

/-- Number of levels, of the first `n`, at which the offspring starts afresh. -/
def SireRecord.renewals (r : SireRecord) (n : Nat) : Nat := (List.range n).countP r.renews

namespace Generator

theorem draw_add (m n : Nat) (g : Generator) :
    draw (m + n) g = ((draw m g).1 ++ (draw n (draw m g).2).1, (draw n (draw m g).2).2) := by
  induction m generalizing g with
  | zero => simp
  | succ m ih =>
    rw [show m + 1 + n = m + n + 1 by omega]
    simp only [draw, ih, List.cons_append]

/-- An identifier is the next one after those drawn before it. -/
theorem getElem?_draw {k n : Nat} (h : k < n) (g : Generator) :
    (draw n g).1[k]? = some (draw k g).2.next.1 := by
  obtain ⟨m, rfl⟩ : ∃ m, n = k + (m + 1) := ⟨n - k - 1, by omega⟩
  have hlength := g.length_draw k
  rw [draw_add, List.getElem?_append_right (Nat.le_of_eq hlength), hlength, Nat.sub_self]
  rfl

end Generator

variable {r : SireRecord} {level n : Nat}

namespace Channel

theorem inherit_of_renews (h : r.renews level = true) (g : Generator) :
    inherit r level g = (⟨g.next.1, 0, 0⟩, g.next.2) := by
  unfold inherit
  cases hid : r.ids[level]? with
  | none => rfl
  | some id =>
    have hlt : level < r.level := by simpa [SireRecord.renews, hid] using h
    simp only [if_neg (Nat.not_le.2 hlt)]

theorem inherit_of_keeps (h : r.renews level = false) (g : Generator) :
    (inherit r level g).2 = g ∧ r.ids[level]? = some (inherit r level g).1.id := by
  unfold inherit
  cases hid : r.ids[level]? with
  | none => simp [SireRecord.renews, hid] at h
  | some id =>
    have hle : r.level ≤ level := by simpa [SireRecord.renews, hid] using h
    simp only [if_pos hle, and_self]

/-- A birth draws one identifier for every level at which the offspring starts afresh. -/
theorem snd_inheritAll (r : SireRecord) (levels : List Nat) (g : Generator) :
    (inheritAll r levels g).2 = (g.draw (levels.countP r.renews)).2 := by
  induction levels generalizing g with
  | nil => rfl
  | cons level rest ih =>
    cases h : r.renews level with
    | true =>
      rw [List.countP_cons_of_pos h]
      simp only [inheritAll, inherit_of_renews h, ih, Generator.draw]
    | false =>
      rw [List.countP_cons_of_neg (by simp [h])]
      simp only [inheritAll, (inherit_of_keeps h g).1, ih]

theorem inheritAll_append (r : SireRecord) (ls ms : List Nat) (g : Generator) :
    (inheritAll r (ls ++ ms) g).1 =
      (inheritAll r ls g).1 ++ (inheritAll r ms (inheritAll r ls g).2).1 := by
  induction ls generalizing g with
  | nil => rfl
  | cons level rest ih => simp only [List.cons_append, inheritAll, ih]

theorem length_inheritAll (r : SireRecord) (levels : List Nat) (g : Generator) :
    (inheritAll r levels g).1.length = levels.length := by
  induction levels generalizing g with
  | nil => rfl
  | cons level rest ih => simp only [inheritAll, List.length_cons, ih]

/-- Levels that start afresh take the identifiers that are drawn. -/
theorem ids_of_renews {levels : List Nat} (h : ∀ level ∈ levels, r.renews level = true)
    (g : Generator) : (inheritAll r levels g).1.map (·.id) = (g.draw levels.length).1 := by
  induction levels generalizing g with
  | nil => rfl
  | cons level rest ih =>
    have ihr := ih (fun l hl => h l (List.mem_cons_of_mem level hl)) g.next.2
    simp only [inheritAll, inherit_of_renews (h level List.mem_cons_self), List.map_cons, ihr,
      List.length_cons, Generator.draw]

/-- Levels that do not keep those of the record. -/
theorem ids_of_keeps {first count : Nat} (hlen : first + count = r.ids.length)
    (h : ∀ level, first ≤ level → level < r.ids.length → r.renews level = false) (g : Generator) :
    (inheritAll r (List.range' first count) g).1.map (·.id) = r.ids.drop first := by
  induction count generalizing first with
  | zero => exact (List.drop_eq_nil_of_le (by omega)).symm
  | succ count ih =>
    have hlt : first < r.ids.length := by omega
    obtain ⟨hg, hid⟩ := inherit_of_keeps (h first (Nat.le_refl first) hlt) g
    have hhead : (inherit r first g).1.id = r.ids[first] := by
      rw [List.getElem?_eq_getElem hlt] at hid
      exact (Option.some.inj hid).symm
    have hrest := @ih (first + 1) (by omega) fun l hl => h l (by omega)
    rw [List.range'_succ, List.drop_eq_getElem_cons hlt, ← hhead, ← hrest]
    simp only [inheritAll, List.map_cons, hg]

end Channel

/-- A child by its identifiers: those drawn at its birth at the lowest levels, and above them those
of its parent. -/
structure Begets (nlev : Nat) (parent news child : List ChannelId) : Prop where
  eq : child = news ++ parent.drop news.length
  length : child.length = nlev

namespace SireRecord

/-- Renewed are the levels below that of the reproduction, or all if the parent had none. -/
theorem renews_iff (hlen : r.ids = [] ∨ r.ids.length = n) (hl : level < n) :
    r.renews level = true ↔ level < (if r.ids = [] then n else min r.level n) := by
  rcases hlen with he | he
  · simp [renews, he, hl]
  · have hne : r.ids ≠ [] := by
      intro h
      rw [h] at he
      simp at he
      omega
    simp [renews, hne, he]
    omega

theorem countP_range_lt (k n : Nat) : (List.range n).countP (fun l => decide (l < k)) = min k n := by
  induction n with
  | zero => simp
  | succ n ih =>
    rw [List.range_succ, List.countP_append, ih, List.countP_singleton]
    by_cases h : n < k
    · simp only [h, decide_true, if_true]
      omega
    · simp only [h, decide_false, Bool.false_eq_true, if_false]
      omega

theorem renewals_eq (hlen : r.ids = [] ∨ r.ids.length = n) :
    r.renewals n = if r.ids = [] then n else min r.level n := by
  have hc : (List.range n).countP r.renews =
      (List.range n).countP (fun l => decide (l < if r.ids = [] then n else min r.level n)) := by
    apply List.countP_congr
    intro l hl
    rw [renews_iff hlen (List.mem_range.1 hl), decide_eq_true_eq]
  rw [renewals, hc, countP_range_lt]
  by_cases he : r.ids = []
  · simp [he]
  · simp [he]

end SireRecord

/-- What an offspring is born with. -/
theorem Channel.begets_ofSire {levels : List Level}
    (hlen : r.ids = [] ∨ r.ids.length = levels.length) (g : Generator) :
    ∃ child, (ofSire levels r g).1.ids = some child ∧
      Begets levels.length r.ids (g.draw (r.renewals levels.length)).1 child := by
  refine ⟨_, rfl, ?_, by rw [List.length_map, length_inheritAll, List.length_range]⟩
  have hk := SireRecord.renewals_eq hlen
  have hrenews (l : Nat) (hl : l < levels.length) :
      r.renews l = true ↔ l < r.renewals levels.length := by
    rw [SireRecord.renews_iff hlen hl, hk]
  obtain ⟨m, hm⟩ : ∃ m, r.renewals levels.length + m = levels.length := by
    have hle : r.renewals levels.length ≤ (List.range levels.length).length :=
      List.countP_le_length
    rw [List.length_range] at hle
    exact ⟨levels.length - r.renewals levels.length, Nat.add_sub_cancel' hle⟩
  have hlow : (inheritAll r (List.range (r.renewals levels.length)) g).1.map (·.id) =
      (g.draw (r.renewals levels.length)).1 := by
    rw [ids_of_renews _ g, List.length_range]
    intro l hl
    have hl' := List.mem_range.1 hl
    exact (hrenews l (by omega)).2 hl'
  have hhigh (g : Generator) :
      (inheritAll r (List.range' (r.renewals levels.length) m) g).1.map (·.id) =
        r.ids.drop (r.renewals levels.length) := by
    rcases hlen with he | he
    · have hm0 : m = 0 := by
        simp only [he, if_true] at hk
        omega
      rw [hm0, he, List.drop_nil]
      rfl
    · refine ids_of_keeps (by omega) (fun l hl hl' => ?_) g
      rw [← Bool.not_eq_true, hrenews l (by omega)]
      omega
  have hsplit : List.range levels.length =
      List.range (r.renewals levels.length) ++ List.range' (r.renewals levels.length) m := by
    have happend := List.range'_append_1 (s := 0) (m := r.renewals levels.length) (n := m)
    rw [Nat.zero_add, hm] at happend
    rw [List.range_eq_range', List.range_eq_range', happend]
  rw [hsplit, inheritAll_append, List.map_append, hlow, hhigh, Generator.length_draw]

/-! ## Level by level -/

namespace SireRecord

/-- Generation and age of the offspring at a level. -/
def bequest (r : SireRecord) (level : Nat) : UInt64 × UInt64 :=
  if r.renews level then (0, 0)
  else (Word.add (r.generations.getD level 0) 1, r.ages.getD level 0)

/-- A record with an identifier for every level renews just the levels below that of the
reproduction. -/
theorem renews_eq (hids : r.ids.length = n) (hl : level < n) :
    r.renews level = decide (level < r.level) := by
  have hsome : r.ids[level]? = some r.ids[level] := List.getElem?_eq_getElem (by omega)
  rw [renews, hsome]
  exact Bool.or_false _

/-- A complete record starts afresh at as many levels as lie below its own. -/
theorem renewals_eq_level (hids : r.ids.length = n) (hlevel : r.level ≤ n) :
    r.renewals n = r.level := by
  rw [renewals_eq (.inr hids)]
  split
  · next hnil =>
    rw [hnil, List.length_nil] at hids
    omega
  · exact Nat.min_eq_left hlevel

end SireRecord

namespace Channel

theorem bequest_inherit (r : SireRecord) (level : Nat) (g : Generator) :
    ((inherit r level g).1.generation, (inherit r level g).1.age) = r.bequest level := by
  unfold inherit SireRecord.bequest SireRecord.renews
  cases r.ids[level]? with
  | none => simp
  | some id =>
    by_cases hle : r.level ≤ level
    · simp [hle, Nat.not_lt.2 hle]
    · simp [hle, Nat.lt_of_not_le hle]

/-- Which identifiers are drawn does not matter to generations and ages. -/
theorem bequest_inheritAll (r : SireRecord) (levels : List Nat) (g : Generator) :
    (inheritAll r levels g).1.map (fun x => (x.generation, x.age)) = levels.map r.bequest := by
  induction levels generalizing g with
  | nil => rfl
  | cons level rest ih => simp only [inheritAll, List.map_cons, bequest_inherit, ih]

variable {levels : List Level}

theorem bequest_ofSire (hl : level < levels.length) (g : Generator) :
    (ofSire levels r g).1.generation level = (r.bequest level).1 ∧
      (ofSire levels r g).1.age level = (r.bequest level).2 := by
  have hmap := bequest_inheritAll r (List.range levels.length) g
  have hlength : (inheritAll r (List.range levels.length) g).1.length = levels.length := by
    rw [length_inheritAll, List.length_range]
  have hget := congrArg (·[level]?) hmap
  simp only [List.getElem?_map, List.getElem?_range hl, Option.map_some,
    List.getElem?_eq_getElem (hlength.symm ▸ hl), Option.some.injEq] at hget
  rw [← hget]
  simp only [ofSire, generation, age, List.getD_eq_getElem?_getD, List.getElem?_map,
    List.getElem?_eq_getElem (hlength.symm ▸ hl), Option.map_some, Option.getD_some, and_self]

/-- What a level inherits depends on the levels below it only through what they have drawn. -/
theorem getElem?_inheritAll (hl : level < n) (g : Generator) :
    (inheritAll r (List.range n) g).1[level]? =
      some (inherit r level (g.draw (r.renewals level)).2).1 := by
  obtain ⟨m, rfl⟩ : ∃ m, n = level + (m + 1) := ⟨n - level - 1, by omega⟩
  have hlength : (inheritAll r (List.range level) g).1.length = level := by
    rw [length_inheritAll, List.length_range]
  rw [List.range_add, List.range_succ_eq_map, List.map_cons, inheritAll_append,
    List.getElem?_append_right (Nat.le_of_eq hlength), hlength, Nat.sub_self, snd_inheritAll]
  rfl

/-- Wherever it starts afresh, an offspring has the next of the identifiers drawn for it. -/
theorem id?_ofSire (hl : level < levels.length) (g : Generator) :
    (ofSire levels r g).1.id? level =
      if r.renews level then (g.draw (r.renewals levels.length)).1[r.renewals level]?
      else r.ids[level]? := by
  have hid : (ofSire levels r g).1.id? level =
      some (inherit r level (g.draw (r.renewals level)).2).1.id := by
    change (List.map _ _)[level]? = _
    rw [List.getElem?_map, getElem?_inheritAll hl]
    rfl
  rw [hid]
  cases h : r.renews level with
  | true =>
    -- the level itself is among the renewed ones
    have hmore : r.renewals level < r.renewals levels.length := by
      have hsucc : r.renewals (level + 1) = r.renewals level + 1 := by
        simp [SireRecord.renewals, List.range_succ, h]
      have hle : r.renewals (level + 1) ≤ r.renewals levels.length :=
        (List.range_sublist.2 hl).countP_le
      omega
    rw [if_pos rfl, Generator.getElem?_draw hmore, inherit_of_renews h]
  | false => rw [if_neg Bool.false_ne_true, (inherit_of_keeps h _).2]

/-- At and above the level of reproduction the offspring belongs to its parent's groups. -/
theorem ofSire_above (hids : r.ids.length = levels.length) (hlevel : r.level ≤ level)
    (hl : level < levels.length) (g : Generator) :
    (ofSire levels r g).1.id? level = r.ids[level]? ∧
      (ofSire levels r g).1.generation level = Word.add (r.generations.getD level 0) 1 ∧
      (ofSire levels r g).1.age level = r.ages.getD level 0 := by
  have hkeeps : r.renews level = false := by
    rw [SireRecord.renews_eq hids hl, decide_eq_false (Nat.not_lt.2 hlevel)]
  obtain ⟨hgeneration, hage⟩ := bequest_ofSire (r := r) hl g
  have hid := id?_ofSire (r := r) hl g
  simp only [SireRecord.bequest, hkeeps, Bool.false_eq_true, if_false] at hgeneration hage hid
  exact ⟨hid, hgeneration, hage⟩

/-- Below it the offspring starts afresh, with the identifiers drawn for it. -/
theorem ofSire_below (hids : r.ids.length = levels.length) (hlevel : level < r.level)
    (hmax : r.level ≤ levels.length) (g : Generator) :
    (ofSire levels r g).1.id? level = (g.draw r.level).1[level]? ∧
      (ofSire levels r g).1.generation level = 0 ∧ (ofSire levels r g).1.age level = 0 := by
  have hl : level < levels.length := by omega
  have hrenews (l : Nat) (hl' : l ≤ level) : r.renews l = true := by
    rw [SireRecord.renews_eq hids (by omega), decide_eq_true (by omega)]
  have hbefore : r.renewals level = level := by
    have hall := List.countP_eq_length.2 fun l hl' => hrenews l (Nat.le_of_lt (List.mem_range.1 hl'))
    rw [SireRecord.renewals, hall, List.length_range]
  obtain ⟨hgeneration, hage⟩ := bequest_ofSire (r := r) hl g
  have hid := id?_ofSire (r := r) hl g
  have hlast := hrenews level (Nat.le_refl level)
  simp only [SireRecord.bequest, hlast, if_true, hbefore, SireRecord.renewals_eq_level hids hmax]
    at hgeneration hage hid
  exact ⟨hid, hgeneration, hage⟩

end Channel

end Vivarium
