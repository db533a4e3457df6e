import Vivarium.Proofs.Affinity.Selection
import Vivarium.Proofs.Stockpile
/-!
# Which way a regulator moves an entry

An entry stands in a ranking behind those that precede it, and the others stand as if it were not there. A
lower regulator leaves fewer entries that precede it. So an entry whose regulator is lowered moves to the front
or stays where it is, and no two of the others change places.
-/
namespace Vivarium

/-! ## One member moves to the front -/

section

variable {β : Type} [DecidableEq β] {l l' : List β} {x y z : β} {n : Nat}

/-- What is kept of a list is kept in its order. -/
theorem idxOf_filter_lt_iff {p : β → Bool} (hy : p y = true) (hz : p z = true) :
    (l.filter p).idxOf y < (l.filter p).idxOf z ↔ l.idxOf y < l.idxOf z := by
  induction l with
  | nil => rfl
  | cons a l ih =>
    by_cases ha : p a = true
    · rw [List.filter_cons_of_pos ha]
      by_cases hay : a = y
      · subst hay
        by_cases haz : a = z
        · rw [haz]
          simp
        · rw [List.idxOf_cons_self, List.idxOf_cons_self, List.idxOf_cons_ne _ haz, List.idxOf_cons_ne _ haz]
          simp
      · rw [List.idxOf_cons_ne _ hay, List.idxOf_cons_ne _ hay]
        by_cases haz : a = z
        · rw [haz, List.idxOf_cons_self, List.idxOf_cons_self]
          simp
        · rw [List.idxOf_cons_ne _ haz, List.idxOf_cons_ne _ haz, Nat.succ_lt_succ_iff,
            Nat.succ_lt_succ_iff, ih]
    · have hay : a ≠ y := fun h => ha (h ▸ hy)
      have haz : a ≠ z := fun h => ha (h ▸ hz)
      rw [List.filter_cons_of_neg ha, List.idxOf_cons_ne _ hay, List.idxOf_cons_ne _ haz,
        Nat.succ_lt_succ_iff, ih]

/-- Without one of its members the head of a list is a head of what is left, shorter by one. -/
theorem filter_ne_take (hl : l.Nodup) (x : β) (n : Nat) :
    (l.take n).filter (· ≠ x) = (l.filter (· ≠ x)).take (if x ∈ l.take n then n - 1 else n) := by
  induction l generalizing n with
  | nil => simp
  | cons a l ih =>
    obtain ⟨ha, hrest⟩ := List.nodup_cons.1 hl
    cases n with
    | zero => simp
    | succ n =>
      rw [List.take_succ_cons]
      by_cases hax : a = x
      · subst hax
        have hall (k : List β) (hk : a ∉ k) : k.filter (· ≠ a) = k :=
          List.filter_eq_self.2 fun b hb => decide_eq_true fun h => hk (h ▸ hb)
        rw [if_pos List.mem_cons_self, List.filter_cons_of_neg (by simp), List.filter_cons_of_neg (by simp),
          hall l ha, hall _ fun h => ha (List.mem_of_mem_take h), Nat.add_sub_cancel]
      · rw [List.filter_cons_of_pos (by simpa using hax), List.filter_cons_of_pos (by simpa using hax),
          ih hrest]
        by_cases hx : x ∈ l.take n
        · rw [if_pos hx, if_pos (List.mem_cons_of_mem a hx)]
          cases n with
          | zero => exact absurd hx List.not_mem_nil
          | succ n => rfl
        · have hnot : x ∉ a :: l.take n := by
            rw [List.mem_cons, not_or]
            exact ⟨fun h => hax h.symm, hx⟩
          rw [if_neg hx, if_neg hnot, List.take_succ_cons]

/-- The second list is the first one with the member farther in front, or put in where it was not. -/
structure Advances (x : β) (l l' : List β) : Prop where
  others : l'.filter (· ≠ x) = l.filter (· ≠ x)
  idxOf_le : x ∈ l → x ∈ l' ∧ l'.idxOf x ≤ l.idxOf x

namespace Advances

/-- A member that advances stays among the first ones, no farther back. -/
theorem take (h : Advances x l l') (hx : x ∈ l.take n) :
    x ∈ l'.take n ∧ (l'.take n).idxOf x ≤ (l.take n).idxOf x := by
  have hmem : x ∈ l := List.mem_of_mem_take hx
  obtain ⟨hmem', hle⟩ := h.idxOf_le hmem
  have hlt : l.idxOf x < n := (List.mem_take_iff_idxOf_lt hmem).1 hx
  have hx' : x ∈ l'.take n := (List.mem_take_iff_idxOf_lt hmem').2 (Nat.lt_of_le_of_lt hle hlt)
  rw [(List.take_prefix n l).idxOf_eq_of_mem hx, (List.take_prefix n l').idxOf_eq_of_mem hx']
  exact ⟨hx', hle⟩

/-- There may be one fewer of the others, if the member has come in. -/
theorem take_others (h : Advances x l l') (hl : l.Nodup) (hl' : l'.Nodup) (n : Nat) :
    (l'.take n).filter (· ≠ x) <+: (l.take n).filter (· ≠ x) := by
  rw [filter_ne_take hl, filter_ne_take hl', h.others]
  apply List.take_prefix_take_left
  by_cases hx : x ∈ l.take n
  · rw [if_pos hx, if_pos (h.take hx).1]
  · rw [if_neg hx]
    split
    · exact Nat.sub_le n 1
    · exact Nat.le_refl n

/-- Those that stay among the first ones keep their order. -/
theorem take_order (h : Advances x l l') (hy : y ≠ x) (hz : z ≠ x) (hyl : y ∈ l.take n)
    (hyl' : y ∈ l'.take n) (hzl : z ∈ l.take n) (hzl' : z ∈ l'.take n) :
    (l'.take n).idxOf y < (l'.take n).idxOf z ↔ (l.take n).idxOf y < (l.take n).idxOf z := by
  have hy : decide (y ≠ x) = true := decide_eq_true hy
  have hz : decide (z ≠ x) = true := decide_eq_true hz
  rw [(List.take_prefix n l).idxOf_eq_of_mem hyl, (List.take_prefix n l).idxOf_eq_of_mem hzl,
    (List.take_prefix n l').idxOf_eq_of_mem hyl', (List.take_prefix n l').idxOf_eq_of_mem hzl',
    ← idxOf_filter_lt_iff (p := fun a => decide (a ≠ x)) hy hz]
  rw [h.others, idxOf_filter_lt_iff (p := fun a => decide (a ≠ x)) hy hz]

theorem head? (h : Advances x l l') (hx : l.head? = some x) : l'.head? = some x := by
  obtain ⟨rest, rfl⟩ := List.head?_eq_some_iff.1 hx
  obtain ⟨hmem, hle⟩ := h.idxOf_le List.mem_cons_self
  rw [List.idxOf_cons_self, Nat.le_zero] at hle
  rwa [List.head?_eq_getElem?, ← hle, List.getElem?_idxOf]

end Advances

end

variable {α V : Type} [Scalar α]

instance (query : Tag) (d e : Entry α V) : Decidable (d.Precedes query e) :=
  inferInstanceAs (Decidable (_ ∨ _ ∧ _))

/-- What precedes an entry precedes it also when it is farther away. -/
theorem Entry.Precedes.of_le [Scalar.Linear α] {query : Tag} {d e e' : Entry α V}
    (hd : Scalar.IsNumber (d.distance query)) (he : Scalar.IsNumber (e.distance query))
    (he' : Scalar.IsNumber (e'.distance query)) (hle : e.distance query ≤ e'.distance query)
    (hhandle : e.handle = e'.handle) (h : d.Precedes query e) : d.Precedes query e' := by
  rcases h with hlt | ⟨hnot, hlt⟩
  · exact .inl (Scalar.lt_of_lt_of_le hd he he' hlt hle)
  · have hde : d.distance query ≤ e.distance query := (Scalar.not_lt_iff he hd).1 hnot
    exact .inr ⟨(Scalar.not_lt_iff he' hd).2 (Scalar.Numeric.le_trans hde hle), hhandle ▸ hlt⟩

namespace Registry

def regulated (r : Registry α V) (h : Handle) (w : Regulator α) : Registry α V :=
  { r with entries := r.entries.map fun e => if e.handle = h then { e with regulator := w } else e }

variable {r : Registry α V} {d e : Entry α V} {h : Handle} {w w' : Regulator α} {query : Tag}

/-! ## Regulators that are put in place -/

omit [Scalar α] in
theorem mem_regulated (he : e ∈ r.entries) (w : Regulator α) :
    { e with regulator := w } ∈ (r.regulated e.handle w).entries :=
  List.mem_map.2 ⟨e, he, if_pos rfl⟩

omit [Scalar α] in
theorem filter_entries_regulated (r : Registry α V) (h : Handle) (w : Regulator α) :
    (r.regulated h w).entries.filter (·.handle ≠ h) = r.entries.filter (·.handle ≠ h) := by
  have hhandle (e : Entry α V) :
      (if e.handle = h then { e with regulator := w } else e).handle = e.handle := by
    split
    · rfl
    · rfl
  rw [regulated, List.filter_map]
  simp only [Function.comp_def, hhandle]
  conv_rhs => rw [← List.map_id (r.entries.filter _)]
  exact List.map_congr_left fun e he => if_neg (of_decide_eq_true (List.mem_filter.1 he).2)

theorem Sane.regulated (hr : r.Sane) (h : Handle) (hw : Scalar.isFinite w.value = true) :
    (r.regulated h w).Sane := by
  refine hr.map (fun e => ?_) fun e he => ?_
  · split
    · rfl
    · rfl
  · split
    · exact hw
    · exact he

theorem Sane.regulated_self (hr : r.Sane) (he : e ∈ r.entries) :
    r.regulated e.handle e.regulator = r := by
  have hentries : r.entries.map (fun d => if d.handle = e.handle then { d with regulator := e.regulator }
      else d) = r.entries := by
    conv_rhs => rw [← List.map_id r.entries]
    refine List.map_congr_left fun d hd => ?_
    split
    · next hhandle =>
      rw [List.inj_on_of_nodup_map hr.nodup_handles hd he hhandle]
      rfl
    · rfl
  rw [Registry.regulated, hentries]

/-- An update under the handle of an entry is one of its regulator. -/
theorem Sane.modify?_eq (hr : r.Sane) (he : e ∈ r.entries) {f : Regulator α → Regulator α}
    (hf : f e.regulator = w) :
    r.modify? e.handle (fun d => { d with regulator := f d.regulator }) = some (r.regulated e.handle w) := by
  rw [Registry.modify?, entry?_eq_some hr.nodup_handles he, Option.isSome_some, if_pos rfl, Registry.regulated]
  congr 2
  refine List.map_congr_left fun d hd => ?_
  by_cases hhandle : d.handle = e.handle
  · have hde : d = e := List.inj_on_of_nodup_map hr.nodup_handles hd he hhandle
    rw [if_pos (beq_iff_eq.2 hhandle), if_pos hhandle, hde, hf]
  · rw [if_neg (by rwa [beq_iff_eq]), if_neg hhandle]

theorem Sane.setRegulator?_eq (hr : r.Sane) (he : e ∈ r.entries) {value : α}
    (hvalue : Scalar.isFinite value = true) (duration : UInt32) :
    r.setRegulator? e.handle value duration = some (r.regulated e.handle ⟨value, duration⟩) :=
  hr.modify?_eq he (f := fun old => old.set value duration) (if_pos hvalue)

theorem Sane.adjustRegulator?_eq (hr : r.Sane) (he : e ∈ r.entries) {delta : α}
    (hvalue : Scalar.isFinite (e.regulator.value + delta) = true) (duration : UInt32) :
    r.adjustRegulator? e.handle delta duration =
      some (r.regulated e.handle ⟨e.regulator.value + delta, duration⟩) :=
  hr.modify?_eq he (f := fun old => old.adjust delta duration) (if_pos hvalue)

/-! ## Places -/

variable [Scalar.Graded α] [Scalar.Linear α]

/-- Of two entries at most one precedes the other. -/
theorem Sane.not_precedes (hr : r.Sane) (hd : d ∈ r.entries) (he : e ∈ r.entries)
    (h : d.Precedes query e) : ¬e.Precedes query d :=
  Ahead.asymm h (hr.number_distance hd query).2 (hr.number_distance he query).2

/-- The others stand as they would without the entry. -/
theorem Sane.others_regulated (hr : r.Sane) (h : Handle) (hw : Scalar.isFinite w.value = true)
    (query : Tag) : ((r.regulated h w).ranking query).filter (·.handle ≠ h) =
      (r.ranking query).filter (·.handle ≠ h) := by
  have hs := hr.regulated h hw
  have hentries : (r.regulated h w).entries.filter (·.handle ≠ h) = r.entries.filter (·.handle ≠ h) :=
    filter_entries_regulated r h w
  have hsub : ∀ d ∈ ((r.regulated h w).ranking query).filter (·.handle ≠ h), d ∈ r.entries := by
    intro d hd
    obtain ⟨hd, hne⟩ := List.mem_filter.1 hd
    have hmem : d ∈ (r.regulated h w).entries.filter (·.handle ≠ h) :=
      List.mem_filter.2 ⟨(mem_ranking.1 hd).1, hne⟩
    rw [hentries] at hmem
    exact (List.mem_filter.1 hmem).1
  refine List.Perm.eq_of_pairwise (fun d e hd he hde hed => ?_) ((hs.pairwise_ranking query).filter _)
    ((hr.pairwise_ranking query).filter _) ?_
  · have he : e ∈ r.entries := (mem_ranking.1 (List.mem_filter.1 he).1).1
    exact absurd hed (hr.not_precedes (hsub d hd) he hde)
  · refine ((ranking_perm _ query).filter _).trans ?_
    rw [List.filter_comm, hentries, List.filter_comm]
    exact ((ranking_perm r query).filter _).symm

/-- An entry of a ranking stands behind as many as precede it. -/
theorem Sane.idxOf_ranking (hr : r.Sane) (he : e ∈ r.ranking query) :
    ((r.ranking query).map (·.handle)).idxOf e.handle =
      ((r.ranking query).filter (·.handle ≠ e.handle)).countP (fun d => decide (d.Precedes query e)) := by
  have hpairwise := hr.pairwise_ranking query
  have hnodup := hr.nodup_ranking query
  have hentry : ∀ d ∈ r.ranking query, d ∈ r.entries := fun d hd => (mem_ranking.1 hd).1
  obtain ⟨before, after, hsplit⟩ := List.append_of_mem he
  rw [hsplit] at hpairwise hnodup hentry ⊢
  obtain ⟨-, htail, hbefore⟩ := List.pairwise_append.1 hpairwise
  obtain ⟨hafter, -⟩ := List.pairwise_cons.1 htail
  rw [List.map_append, List.map_cons] at hnodup ⊢
  obtain ⟨-, hnodupTail, hdisjoint⟩ := List.nodup_append.1 hnodup
  have hfirst : e.handle ∉ before.map (·.handle) := fun h =>
    hdisjoint _ h _ List.mem_cons_self rfl
  have hlast : e.handle ∉ after.map (·.handle) := (List.nodup_cons.1 hnodupTail).1
  have hkept (es : List (Entry α V)) (h : e.handle ∉ es.map (·.handle)) :
      es.filter (·.handle ≠ e.handle) = es :=
    List.filter_eq_self.2 fun d hd => decide_eq_true fun heq => h (heq ▸ List.mem_map_of_mem hd)
  have hahead : before.countP (fun d => decide (d.Precedes query e)) = before.length :=
    List.countP_eq_length.2 fun d hd => decide_eq_true (hbefore d hd e List.mem_cons_self)
  have hbehind : after.countP (fun d => decide (d.Precedes query e)) = 0 := by
    refine List.countP_eq_zero.2 fun d hd h => ?_
    exact hr.not_precedes (hentry d (by simp [hd])) (hentry e (by simp)) (of_decide_eq_true h) (hafter d hd)
  rw [List.idxOf_append_of_notMem hfirst, List.idxOf_cons_self, List.length_map, Nat.add_zero,
    List.filter_append, hkept before hfirst, List.filter_cons_of_neg (by simp), hkept after hlast,
    List.countP_append, hahead, hbehind, Nat.add_zero]

/-- What makes an entry less distant brings it forward among those that match the query. -/
theorem Sane.advances_regulated (hr : r.Sane) (he : e ∈ r.entries)
    (hw : Scalar.isFinite w.value = true) (hw' : Scalar.isFinite w'.value = true)
    (hle : Entry.distance { e with regulator := w' } query ≤ Entry.distance { e with regulator := w } query) :
    Advances e.handle (((r.regulated e.handle w).ranking query).map (·.handle))
      (((r.regulated e.handle w').ranking query).map (·.handle)) := by
  have hs := hr.regulated e.handle hw
  have hs' := hr.regulated e.handle hw'
  have hmem := mem_regulated he w
  have hmem' := mem_regulated he w'
  have hnumber := (hs.number_distance hmem query).2
  have hnumber' := (hs'.number_distance hmem' query).2
  constructor
  · simp only [List.filter_map, Function.comp_def]
    rw [hr.others_regulated e.handle hw' query, hr.others_regulated e.handle hw query]
  · intro hin
    obtain ⟨d, hd, hhandle⟩ := List.mem_map.1 hin
    obtain ⟨hd, hclears⟩ := mem_ranking.1 hd
    obtain rfl := List.inj_on_of_nodup_map hs.nodup_handles hd hmem hhandle
    have hclears' : (r.regulated e.handle w').Clears query { e with regulator := w' } :=
      Scalar.Numeric.le_trans hle hclears
    have hranked := mem_ranking.2 ⟨hmem, hclears⟩
    have hranked' := mem_ranking.2 ⟨hmem', hclears'⟩
    refine ⟨List.mem_map.2 ⟨_, hranked', rfl⟩, ?_⟩
    rw [hs.idxOf_ranking hranked, hs'.idxOf_ranking hranked', hr.others_regulated e.handle hw query,
      hr.others_regulated e.handle hw' query]
    refine List.countP_mono_left fun d hd h => decide_eq_true ?_
    have hd : d ∈ r.entries := (mem_ranking.1 (List.mem_filter.1 hd).1).1
    have hprecedes : d.Precedes query { e with regulator := w' } := of_decide_eq_true h
    exact hprecedes.of_le (hr.number_distance hd query).2 hnumber' hnumber hle rfl

/-- An entry that is less distant does not lose the first place. -/
theorem Sane.matchBest?_regulated (hr : r.Sane) (he : e ∈ r.entries)
    (hw : Scalar.isFinite w.value = true) (hw' : Scalar.isFinite w'.value = true)
    (hle : Entry.distance { e with regulator := w' } query ≤ Entry.distance { e with regulator := w } query)
    (hbest : (r.regulated e.handle w).matchBest? query = some e.handle) :
    (r.regulated e.handle w').matchBest? query = some e.handle := by
  rw [matchBest?, best?, ← List.head?_map] at hbest ⊢
  exact (hr.advances_regulated he hw hw' hle).head? hbest

/-! ## Exact regulators -/

omit [Scalar α] [Scalar.Graded α] [Scalar.Linear α] in
/-- A lower value never moves an entry away from a query. -/
theorem distance_le_of_value_le (e : Entry Rat V) {w w' : Regulator Rat} (hle : w'.value ≤ w.value)
    (query : Tag) :
    Entry.distance { e with regulator := w' } query ≤ Entry.distance { e with regulator := w } query := by
  rw [Entry.distance, Entry.distance, Scalar.positivePart_eq_max, Scalar.positivePart_eq_max]
  exact max_le_max (le_refl 0) (add_le_add_right hle _)

/-- The lower the regulator of an entry, the farther in front the entry. If a query returns it under one
regulator, it returns it under a lower one as well, at the same index or an earlier one; of the others it
returns the same ones in the same order, or all of these but the last. So the best match stays the best match
when its regulator is lowered, and another entry does not become the best match when its own is raised. -/
theorem regulation_monotone {r : Registry Rat V} (hr : r.Reached) {e : Entry Rat V} (he : e ∈ r.entries)
    (query : Tag) :
    (∀ w w' : Regulator Rat, w'.value ≤ w.value → ∀ n,
      let found := (r.regulated e.handle w).matchRanked query n
      let found' := (r.regulated e.handle w').matchRanked query n
      (e.handle ∈ found → e.handle ∈ found' ∧ found'.idxOf e.handle ≤ found.idxOf e.handle) ∧
      found'.filter (· ≠ e.handle) <+: found.filter (· ≠ e.handle) ∧
      ∀ g ≠ e.handle, ∀ g' ≠ e.handle, g ∈ found → g ∈ found' → g' ∈ found → g' ∈ found' →
        (found'.idxOf g < found'.idxOf g' ↔ found.idxOf g < found.idxOf g')) ∧
    (∀ value duration, ∃ s, r.setRegulator? e.handle value duration = some s ∧
      (value ≤ e.regulator.value → r.matchBest? query = some e.handle →
        s.matchBest? query = some e.handle) ∧
      (e.regulator.value ≤ value → r.matchBest? query ≠ some e.handle →
        s.matchBest? query ≠ some e.handle)) ∧
    (∀ delta duration, ∃ s, r.adjustRegulator? e.handle delta duration = some s ∧
      (delta ≤ 0 → r.matchBest? query = some e.handle → s.matchBest? query = some e.handle) ∧
      (0 ≤ delta → r.matchBest? query ≠ some e.handle → s.matchBest? query ≠ some e.handle)) := by
  have hsane := hr.sane
  have hself := hsane.regulated_self he
  have hbest {w w' : Regulator Rat} (hle : w'.value ≤ w.value) :=
    hsane.matchBest?_regulated he rfl rfl (distance_le_of_value_le e hle query)
  refine ⟨fun w w' hle n => ?_, fun value duration => ?_, fun delta duration => ?_⟩
  · intro found found'
    have hadvances := hsane.advances_regulated he rfl rfl (distance_le_of_value_le e hle query)
    have hfound : found = (((r.regulated e.handle w).ranking query).map (·.handle)).take n := List.map_take
    have hfound' : found' = (((r.regulated e.handle w').ranking query).map (·.handle)).take n :=
      List.map_take
    rw [hfound, hfound']
    refine ⟨hadvances.take, hadvances.take_others ?_ ?_ n, fun g hg g' hg' => hadvances.take_order hg hg'⟩
    · exact (hsane.regulated e.handle rfl).nodup_ranking query
    · exact (hsane.regulated e.handle rfl).nodup_ranking query
  · refine ⟨_, hsane.setRegulator?_eq he rfl duration, fun hle h => ?_, fun hle hne h => hne ?_⟩
    · rw [← hself] at h
      exact hbest hle h
    · rw [← hself]
      exact hbest hle h
  · refine ⟨_, hsane.adjustRegulator?_eq he rfl duration, fun hle h => ?_, fun hle hne h => hne ?_⟩
    · rw [← hself] at h
      exact hbest (add_le_of_nonpos_right hle) h
    · rw [← hself]
      exact hbest (le_add_of_nonneg_right hle) h

/-- The entry farthest away comes as near as the nearest one, behind which it was inserted. -/
theorem regulation_monotone_clamped :
    ∃ (r : Registry Rat Nat) (e : Entry Rat Nat), r.Reached ∧ e ∈ r.entries ∧ e.handle = 2 ∧
      (r.regulated 2 ⟨-1 / 16, 3⟩).matchRanked ⟨3⟩ 3 = [0, 1, 2] ∧
      (r.regulated 2 ⟨-1, 3⟩).matchRanked ⟨3⟩ 3 = [0, 2, 1] ∧
      ((r.regulated 2 ⟨-1, 3⟩).matchRanked ⟨3⟩ 2).filter (· ≠ 2) <+:
        ((r.regulated 2 ⟨-1 / 16, 3⟩).matchRanked ⟨3⟩ 2).filter (· ≠ 2) ∧
      ((r.regulated 2 ⟨-1, 3⟩).matchRanked ⟨3⟩ 3).idxOf 2 ≤
        ((r.regulated 2 ⟨-1 / 16, 3⟩).matchRanked ⟨3⟩ 3).idxOf 2 ∧
      ∃ s, r.adjustRegulator? 2 (1 / 2) 4 = some s ∧ s.matchBest? ⟨3⟩ ≠ some 2 := by
  have hreached : Reached (_ : Registry Rat Nat) :=
    (((Reached.empty (Scalar.ratio 1 2)).insert ⟨3⟩ 10).insert ⟨1⟩ 20).insert ⟨0⟩ 30
  obtain ⟨hranked, -, hadjust⟩ := regulation_monotone hreached (e := ⟨2, ⟨0⟩, 30, .neutral⟩)
    (by decide +kernel) ⟨3⟩
  have hle : (⟨-1, 3⟩ : Regulator Rat).value ≤ (⟨-1 / 16, 3⟩ : Regulator Rat).value := by decide +kernel
  obtain ⟨hin, -, -⟩ := hranked ⟨-1 / 16, 3⟩ ⟨-1, 3⟩ hle 3
  obtain ⟨-, hothers, -⟩ := hranked ⟨-1 / 16, 3⟩ ⟨-1, 3⟩ hle 2
  obtain ⟨s, hs, -, hloser⟩ := hadjust (1 / 2) 4
  refine ⟨_, ⟨2, ⟨0⟩, 30, .neutral⟩, hreached, by decide +kernel, rfl, by decide +kernel, by decide +kernel,
    hothers, ?_, s, hs, ?_⟩
  · exact (hin (by decide +kernel)).2
  · exact hloser (by decide +kernel) (by decide +kernel)

end Registry

end Vivarium
