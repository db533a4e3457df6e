import Vivarium.Proofs.Dish.Intake
/-!
# Rounds

The three phases of a step are of one kind: the cells are visited in turn, and every visit reports
something. What a visit brings about for its own cell and keeps for all others holds of every cell
after the round.
-/
namespace Vivarium

variable {α ε β : Type} [Scalar α] {w v : World α}

namespace Dish

def round (visit : Cell α → World α → Except ε (β × Cell α × World α)) :
    List (Cell α) → World α → Except ε (List β × List (Cell α) × World α)
  | [], w => .ok ([], [], w)
  | c :: rest, w => do
    let (report, c, w) ← visit c w
    let (reports, rest, w) ← round visit rest w
    pure (report :: reports, c :: rest, w)

omit [Scalar α] in
/-- A round in which every visit goes well. `K` is what holds of each cell, and `I` of the reports so
far and the world. -/
theorem exists_round (visit : Cell α → World α → Except ε (β × Cell α × World α))
    {K : World α → Cell α → Prop} {I : List β → World α → Prop}
    (hvisit : ∀ reports c w, I reports w → K w c → ∃ report c' w',
      visit c w = .ok (report, c', w') ∧ c'.pos = c.pos ∧ I (reports ++ [report]) w' ∧ K w' c' ∧
        ∀ e : Cell α, e.pos ≠ c.pos → K w e → K w' e)
    (cells : List (Cell α)) (hnodup : (cells.map (·.pos)).Nodup) (before : List β) (w : World α)
    (hI : I before w) (hK : ∀ c ∈ cells, K w c) :
    ∃ reports cells' v, round visit cells w = .ok (reports, cells', v) ∧
      cells'.map (·.pos) = cells.map (·.pos) ∧ I (before ++ reports) v ∧ (∀ c ∈ cells', K v c) ∧
      ∀ e : Cell α, e.pos ∉ cells.map (·.pos) → K w e → K v e := by
  induction cells generalizing before w with
  | nil =>
    refine ⟨[], [], w, rfl, rfl, by rwa [List.append_nil], ?_, fun _ _ he => he⟩
    rintro c ⟨⟩
  | cons c rest ih =>
    obtain ⟨hnot, hnodup⟩ := List.nodup_cons.1 hnodup
    obtain ⟨report, c', w', hv, hpos, hI', hc', hothers⟩ :=
      hvisit before c w hI (hK c List.mem_cons_self)
    obtain ⟨reports, rest', v, hr, hposs, hIv, hrest, hkeep⟩ :=
      ih hnodup (before ++ [report]) w' hI' fun e he =>
        hothers e (fun h => hnot (List.mem_map.2 ⟨e, he, h⟩)) (hK e (List.mem_cons_of_mem c he))
    refine ⟨report :: reports, c' :: rest', v, ?_, ?_, ?_, ?_, fun e he hKe => ?_⟩
    · simp only [round, hv]
      change (round visit rest w' >>= _) = _
      rw [hr]
      rfl
    · rw [List.map_cons, List.map_cons, hpos, hposs]
    · rwa [List.append_cons]
    · intro e he
      cases he with
      | head => exact hkeep c' (hpos ▸ hnot) hc'
      | tail _ he => exact hrest e he
    · rw [List.map_cons, List.mem_cons, not_or] at he
      exact hkeep e he.2 (hothers e he.1 hKe)

variable {tick : Tick} {cells cells' : List (Cell α)}

/-- The first visits are a round whose reports are added up. -/
theorem intakePhase_of_round {reports : List Intake}
    (h : round (takeIn tick) cells w = .ok (reports, cells', v)) :
    intakePhase tick cells w =
      .ok (⟨(reports.map (·.births)).sum, (reports.map (·.refunds)).sum⟩, cells', v) := by
  induction cells generalizing w reports cells' with
  | nil =>
    cases h
    rfl
  | cons c rest ih =>
    obtain ⟨⟨report, c', w'⟩, hv, h⟩ := bind_eq_ok h
    obtain ⟨⟨reports, rest', v'⟩, hr, h⟩ := bind_eq_ok h
    cases h
    simp only [intakePhase, hv]
    change (intakePhase tick rest w' >>= _) = _
    rw [ih hr]
    rfl

theorem actPhase_of_round {reports : List Unit}
    (h : round (fun c w => (act tick c w).map ((), ·)) cells w = .ok (reports, cells', v)) :
    actPhase tick cells w = .ok (cells', v) := by
  induction cells generalizing w reports cells' with
  | nil =>
    cases h
    rfl
  | cons c rest ih =>
    obtain ⟨⟨report, c', w'⟩, hv, h⟩ := bind_eq_ok h
    obtain ⟨⟨reports, rest', v'⟩, hr, h⟩ := bind_eq_ok h
    obtain ⟨⟨c₁, w₁⟩, hact, he⟩ := map_eq_ok hv
    cases he
    cases h
    simp only [actPhase, hact]
    change (actPhase tick rest w' >>= _) = _
    rw [ih hr]
    rfl

theorem deathPhase_of_round {reports : List Nat}
    (h : round (fun c w => (.ok (retire c w) : Except FrameError _)) cells w =
      .ok (reports, cells', v)) : deathPhase cells w = (reports.sum, cells', v) := by
  induction cells generalizing w reports cells' with
  | nil =>
    cases h
    rfl
  | cons c rest ih =>
    obtain ⟨⟨report, c', w'⟩, hv, h⟩ := bind_eq_ok h
    obtain ⟨⟨reports, rest', v'⟩, hr, h⟩ := bind_eq_ok h
    cases h
    simp only [deathPhase, Except.ok.inj hv, ih hr, List.sum_cons]

end Dish

/-! ## Population -/

/-- Places that differ at one point are counted with that difference. -/
theorem countP_range_update {p q : Nat → Bool} {pos : Nat} (h : ∀ i, i ≠ pos → q i = p i) (n : Nat)
    (hp : pos < n) :
    (List.range n).countP q + (p pos).toNat = (List.range n).countP p + (q pos).toNat := by
  have hsame : ∀ m, m ≤ pos → (List.range m).countP q = (List.range m).countP p := by
    intro m hm
    refine List.countP_congr fun i hi => ?_
    rw [h i (by have := List.mem_range.1 hi; omega)]
  induction n with
  | zero => omega
  | succ n ih =>
    rw [List.range_succ, List.countP_append, List.countP_append, List.countP_singleton,
      List.countP_singleton]
    by_cases hn : pos = n
    · subst hn
      rw [hsame pos (Nat.le_refl _)]
      cases p pos <;> cases q pos <;> simp
    · have := ih (by omega)
      rw [h n (Ne.symm hn)]
      omega

namespace World

def population (w : World α) : Nat := (List.range w.size).countP fun q => (w.tile q).live

theorem liveCount_eq_population (w : World α) : w.liveCount = w.population := by
  have hfold (tiles : List (Tile α)) (n : Nat) :
      tiles.foldl (fun n t => if t.live then n + 1 else n) n = n + tiles.countP (·.live) := by
    induction tiles generalizing n with
    | nil => rfl
    | cons t rest ih =>
      rw [List.foldl_cons, ih, List.countP_cons]
      cases t.live with
      | true => simp; omega
      | false => simp
  have htiles : w.tiles.toList = (List.range w.size).map w.tile := by
    refine List.ext_getElem (by simp [size]) fun i hi _ => ?_
    have hi : i < w.tiles.size := by simpa using hi
    simp [tile, hi]
  rw [liveCount, population, ← Array.foldl_toList, hfold, htiles, List.countP_map, Nat.zero_add]
  rfl

/-- What one visit does to the population. -/
theorem population_update {pos : Nat} (hs : v.size = w.size)
    (h : ∀ q, q ≠ pos → (v.tile q).live = (w.tile q).live) (hp : pos < w.size) :
    v.population + (w.tile pos).live.toNat = w.population + (v.tile pos).live.toNat := by
  rw [population, population, hs]
  exact countP_range_update h w.size hp

end World

end Vivarium
