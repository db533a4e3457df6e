import Mathlib.Data.List.Forall2
import Mathlib.Logic.Function.Basic
import Vivarium.Proofs.Dish.History
import Vivarium.Proofs.World.Occupancy
import Vivarium.Scalar.Exact
/-!
# Parents and children

Families are kept by place, while occupants come and go. A chronicle counts the changes of occupant
on every tile and remembers by these counts when a sire was queued and when it was settled. With it
one can say what a cell learns about its parents and children: the sire was settled while the parent
tile had its present occupant. It may have been queued by an earlier one.
-/
namespace Vivarium

variable {α : Type} [Scalar α] {w w' : World α} {pos : Nat}

/-- How an occupant came from a sire: the tile of its parent, and the number of the occupancy there
when the sire was queued and when it was settled. -/
structure Origin where
  parent : Nat
  queued : Nat
  settled : Nat
  deriving DecidableEq

/-- What an observer writes down who sees every deed. -/
structure Chronicle where
  /-- How often the tile has changed hands. -/
  era : Nat → Nat
  /-- For each waiting sire, the era of its parent's tile in which it was queued. -/
  waiting : Nat → List Nat
  /-- Where the present occupant comes from, if it comes from a sire. -/
  origin : Nat → Option Origin

def Deed.offers : Deed α → World α → List (Offer α)
  | .reproduce pos facing relative level program, w =>
    (w.offer? pos facing relative level program).toList
  | .execute f, w => if f.hasProgram then f.offers w else []
  | _, _ => []

namespace Chronicle

def blank : Chronicle := ⟨fun _ => 0, fun _ => [], fun _ => none⟩

def turn (c : Chronicle) (pos : Nat) : Chronicle :=
  { c with
    era := Function.update c.era pos (c.era pos + 1)
    origin := Function.update c.origin pos none }

def clear (c : Chronicle) (pos : Nat) : Chronicle :=
  { c with waiting := Function.update c.waiting pos [] }

/-- The offspring of a sire from `parent` takes the tile. -/
def settle (c : Chronicle) (pos parent queued : Nat) : Chronicle :=
  { c.turn pos with
    origin := Function.update c.origin pos (some ⟨parent, queued, (c.turn pos).era parent⟩) }

def queue (c : Chronicle) (offers : List (Offer α)) : Chronicle :=
  { c with
    waiting := fun q =>
      c.waiting q ++ (offersTo q offers).map fun sire => c.era sire.record.sourcePos }

def after (c : Chronicle) (w : World α) : Deed α → Chronicle
  | .found pos _ => c.turn pos
  | .settle pos _ =>
    match (w.tile pos).intake, c.waiting pos with
    | sire :: _, queued :: _ => (c.clear pos).settle pos sire.record.sourcePos queued
    | _, _ => c
  | .refund pos => c.clear pos
  | .die pos =>
    match (w.tile pos).mark with
    | .unmarked => c
    | _ => c.turn pos
  | .vacate pos => c.turn pos
  | d => c.queue (d.offers w)

end Chronicle

/-- The world that `w₀` has become by some deeds, and the chronicle of these deeds. -/
inductive World.Chronicled (w₀ : World α) : Chronicle → World α → Prop where
  | start : Chronicled w₀ .blank w₀
  | act {c w w'} (d : Deed α) : Chronicled w₀ c w → d.perform w = .ok w' →
      Chronicled w₀ (c.after w d) w'

/-! ## What a chronicle says of the world -/

/-- The chronicle agrees with the books of the world. -/
structure Chronicle.Agrees (c : Chronicle) (w : World α) : Prop where
  waiting : ∀ q, List.Forall₂ (fun sire queued => queued ≤ c.era sire.record.sourcePos)
    (w.tile q).intake (c.waiting q)
  parent : ∀ q, (w.tile q).live = true →
    (c.origin q).map (·.parent) = (w.tile q).family.parent
  origin : ∀ q o, (w.tile q).live = true → c.origin q = some o →
    o.queued ≤ o.settled ∧ o.settled ≤ c.era o.parent ∧
      ((w.tile o.parent).live = true →
        ((w.tile o.parent).family.hasChild q = true ↔ o.settled = c.era o.parent))

namespace Chronicle

@[simp] theorem era_turn (c : Chronicle) (pos q : Nat) :
    (c.turn pos).era q = if q = pos then c.era pos + 1 else c.era q := by
  simp [turn, Function.update_apply]

@[simp] theorem origin_turn (c : Chronicle) (pos q : Nat) :
    (c.turn pos).origin q = if q = pos then none else c.origin q := by
  simp [turn, Function.update_apply]

@[simp] theorem era_settle (c : Chronicle) (pos parent queued q : Nat) :
    (c.settle pos parent queued).era q = (c.turn pos).era q := rfl

@[simp] theorem origin_settle (c : Chronicle) (pos parent queued q : Nat) :
    (c.settle pos parent queued).origin q =
      if q = pos then some ⟨parent, queued, (c.turn pos).era parent⟩ else c.origin q := by
  simp [settle, Function.update_apply]

variable {c : Chronicle}

theorem era_le_turn (c : Chronicle) (pos q : Nat) : c.era q ≤ (c.turn pos).era q := by
  rw [era_turn]
  split
  · next hq => rw [hq]; exact Nat.le_succ _
  · exact Nat.le_refl _

/-- Where every occupant stays, the books stay as they are. -/
theorem Agrees.abide (h : c.Agrees w) (habides : ∀ q, (w.tile q).Abides (w'.tile q))
    {waiting : Nat → List Nat}
    (hw : ∀ q, List.Forall₂ (fun sire queued => queued ≤ c.era sire.record.sourcePos)
      (w'.tile q).intake (waiting q)) : ({ c with waiting } : Chronicle).Agrees w' := by
  refine ⟨hw, fun q hq => ?_, fun q o hq ho => ?_⟩
  · rw [(habides q).live] at hq
    rw [(habides q).family]
    exact h.parent q hq
  · rw [(habides q).live] at hq
    rw [(habides o.parent).family, (habides o.parent).live]
    exact h.origin q o hq ho

theorem Agrees.queue (h : c.Agrees w) (offers : List (Offer α))
    (habides : ∀ q, (w.tile q).Abides (w'.tile q))
    (hin : ∀ q, (w'.tile q).intake = (w.tile q).intake ++ offersTo q offers) :
    (c.queue offers).Agrees w' := by
  refine h.abide habides fun q => ?_
  rw [hin]
  refine List.rel_append (h.waiting q) ?_
  rw [List.forall₂_map_right_iff]
  exact List.forall₂_same.2 fun _ _ => Nat.le_refl _

/-- A deed without offers that leaves occupants and intakes alone. -/
theorem Agrees.quiet (h : c.Agrees w) (habides : ∀ q, (w.tile q).Abides (w'.tile q))
    (hin : ∀ q, (w'.tile q).intake = (w.tile q).intake) : (c.queue ([] : List (Offer α))).Agrees w' :=
  h.queue [] habides fun q => by rw [hin, offersTo_nil, List.append_nil]

/-- A tile changes in what concerns neither its occupant nor its intake. -/
theorem Agrees.touch (h : c.Agrees w) (pos : Nat) {change : Tile α → Tile α}
    (habides : ∀ t : Tile α, t.Abides (change t)) (hin : ∀ t : Tile α, (change t).intake = t.intake) :
    (c.queue ([] : List (Offer α))).Agrees (w.modify pos change) := by
  refine h.quiet (fun q => ?_) fun q => World.intake_modify _ _ _ hin
  have hr : World.Respects pos w (w.modify pos change) := World.respects_modify_live id habides
  exact hr.abides q

theorem Agrees.clear (h : c.Agrees w) (pos : Nat) (sires : List (Sire α FrameOp)) :
    (c.clear pos).Agrees (sires.foldl World.credit (w.clearIntake pos)) := by
  refine h.abide (fun q => ?_) fun q => ?_
  · obtain ⟨stockpile, htile⟩ := w.exists_tile_turnedAway pos sires q
    rw [htile]
    exact ⟨rfl, rfl, rfl, fun _ => rfl⟩
  rw [World.intake_credits, World.intake_clearIntake, Function.update_apply]
  by_cases hq : q = pos
  · rw [if_pos hq, if_pos hq]
    exact .nil
  · rw [if_neg hq, if_neg hq]
    exact h.waiting q

/-- The tile changes hands, and whoever lives there now has neither parent nor children. -/
theorem Agrees.turn (h : c.Agrees w) (hother : ∀ q, q ≠ pos → w'.tile q = w.tile q)
    (hin : (w'.tile pos).intake = (w.tile pos).intake)
    (hfamily : (w'.tile pos).live = true → (w'.tile pos).family.parent = none ∧
      ∀ q, (w'.tile pos).family.hasChild q = false) : (c.turn pos).Agrees w' := by
  constructor
  · intro q
    have hwait : (w'.tile q).intake = (w.tile q).intake := by
      by_cases hq : q = pos
      · rw [hq, hin]
      · rw [hother q hq]
    rw [hwait]
    exact (h.waiting q).imp fun _ _ he => Nat.le_trans he (era_le_turn _ _ _)
  · intro q hlive
    rw [origin_turn]
    by_cases hq : q = pos
    · subst hq
      rw [if_pos rfl, (hfamily hlive).1]
      rfl
    · rw [hother q hq] at hlive ⊢
      rw [if_neg hq]
      exact h.parent q hlive
  · intro q o hlive ho
    rw [origin_turn] at ho
    by_cases hq : q = pos
    · rw [if_pos hq] at ho
      cases ho
    · rw [if_neg hq] at ho
      rw [hother q hq] at hlive
      obtain ⟨hqueued, hsettled, hbond⟩ := h.origin q o hlive ho
      refine ⟨hqueued, Nat.le_trans hsettled (era_le_turn _ _ _), fun hp => ?_⟩
      rw [era_turn]
      by_cases hpar : o.parent = pos
      · -- The new occupant of the parent's tile has no child yet.
        rw [hpar] at hp hsettled ⊢
        rw [(hfamily hp).2, if_pos rfl]
        simp only [Bool.false_eq_true, false_iff]
        omega
      · rw [hother _ hpar] at hp ⊢
        rw [if_neg hpar]
        exact hbond hp

/-- The offspring of a sire moves in. -/
theorem Agrees.settle (h : c.Agrees w) {sire : Sire α FrameOp} (hp : pos < w.size)
    (hs : sire.record.sourcePos < w.size) (tick : Tick) {queued : Nat}
    (hqueued : queued ≤ c.era sire.record.sourcePos) :
    (c.settle pos sire.record.sourcePos queued).Agrees (w.install pos tick sire) := by
  have hsame := World.tile_install_same hp hs tick
  have hother : ∀ q, q ≠ pos → _ := fun q hq => World.tile_install_other hs tick hq
  constructor
  · intro q
    rw [World.intake_install]
    exact (h.waiting q).imp fun _ _ he => Nat.le_trans he (era_le_turn _ _ _)
  · intro q hlive
    rw [origin_settle]
    by_cases hq : q = pos
    · subst hq
      rw [if_pos rfl, hsame]
      -- A grid may be so small that the tile is its own neighbour, and the parent is replaced.
      by_cases hself : q = sire.record.sourcePos
      · simp only [hself, if_true, Tile.occupy, Tile.tidy]
        rfl
      · simp only [hself, if_false, Tile.occupy, Tile.tidy]
        rfl
    · rw [hother q hq] at hlive ⊢
      rw [if_neg hq, h.parent q hlive]
      split
      · rfl
      · rfl
  · intro q o hlive ho
    rw [origin_settle] at ho
    by_cases hq : q = pos
    · subst hq
      rw [if_pos rfl] at ho
      obtain rfl := Option.some.inj ho
      refine ⟨Nat.le_trans hqueued (era_le_turn _ _ _), Nat.le_refl _, fun _ => ?_⟩
      simp only [era_settle, iff_true]
      by_cases hself : sire.record.sourcePos = q
      · rw [hself, hsame]
        simp [Tile.occupy, Tile.tidy, hself]
      · rw [hother _ hself]
        simp
    · rw [if_neg hq] at ho
      rw [hother q hq] at hlive
      obtain ⟨hqueued, hsettled, hbond⟩ := h.origin q o hlive ho
      refine ⟨hqueued, Nat.le_trans hsettled (era_le_turn _ _ _), fun hp => ?_⟩
      rw [era_settle, era_turn]
      by_cases hpar : o.parent = pos
      · rw [hpar] at hsettled ⊢
        rw [hsame, if_pos rfl]
        have hnot : ¬o.settled = c.era pos + 1 := by omega
        by_cases hself : pos = sire.record.sourcePos
        · simp [Tile.occupy, Tile.tidy, hself.symm, hq, hnot]
        · simp [Tile.occupy, Tile.tidy, hself, hnot]
      · rw [hother _ hpar] at hp ⊢
        rw [if_neg hpar, ← hbond hp]
        by_cases hself : o.parent = sire.record.sourcePos
        · simp [hself, hq]
        · simp [hself]

/-- Every deed is written down truthfully. -/
theorem Agrees.perform (h : c.Agrees w) (hw : w.Sound) {d : Deed α} (hd : d.perform w = .ok w') :
    (c.after w d).Agrees w' := by
  obtain ⟨hpos, hact⟩ := Deed.of_perform_eq_ok hd
  cases d with
  | found pos tick =>
    obtain rfl := Except.ok.inj hact
    have htile := World.tile_found (show pos < w.size from hpos) tick
    refine h.turn (fun q hq => ?_) (World.intake_found _ _ _ _) fun _ => ?_
    · rw [htile, if_neg hq]
    · rw [htile, if_pos rfl]
      exact ⟨rfl, fun _ => rfl⟩
  | settle pos tick =>
    obtain ⟨⟨program, v⟩, hs, rfl⟩ := map_eq_ok hact
    cases hin : (w.tile pos).intake with
    | nil =>
      obtain ⟨-, rfl⟩ :=
        Prod.mk.inj (Except.ok.inj ((World.settleSire_nil hin tick).symm.trans hs))
      simpa only [after, hin] using h
    | cons sire losers =>
      obtain ⟨-, rfl⟩ := World.of_settleSire_eq_ok hin hs
      have hwait := h.waiting pos
      rw [hin] at hwait
      obtain ⟨queued, later, hqueued, -, hc⟩ := List.forall₂_cons_left_iff.1 hwait
      have hsize := (World.stays_turnedAway w pos losers).size
      simp only [after, hin, hc]
      refine (h.clear pos losers).settle (hsize.symm ▸ hpos) ?_ tick hqueued
      rw [hsize]
      exact hw.sources pos sire (hin ▸ List.mem_cons_self)
  | refund pos =>
    obtain ⟨⟨n, v⟩, hr, rfl⟩ := map_eq_ok hact
    obtain rfl := World.of_refundIntake_eq_ok hr
    exact h.clear pos _
  | die pos =>
    obtain rfl := Except.ok.inj hact
    rcases w.applyApoptosis_cases pos with ⟨hm, he⟩ | ⟨hm, change, hempty, he⟩
    · rw [he]
      simpa only [after, hm] using h
    · have hafter : c.after w (.die pos) = c.turn pos := by
        cases hmark : (w.tile pos).mark with
        | unmarked => exact absurd hmark hm
        | partialDeath => simp only [after, hmark]
        | completeDeath => simp only [after, hmark]
      rw [hafter, he]
      refine h.turn (fun q hq => World.tile_modify_other _ _ hq)
        (World.intake_modify _ _ _ fun t => (hempty t).intake) fun hlive => ?_
      rw [World.tile_modify_same _ _ (show pos < w.size from hpos), (hempty _).live] at hlive
      cases hlive
  | vacate pos =>
    obtain rfl := Except.ok.inj hact
    refine h.turn (fun q hq => World.tile_modify_other _ _ hq)
      (World.intake_modify _ _ _ fun _ => rfl) fun hlive => ?_
    rw [World.vacate, World.tile_modify_same _ _ (show pos < w.size from hpos)] at hlive
    cases hlive
  | reproduce pos facing relative level program =>
    obtain rfl := Except.ok.inj hact
    exact h.queue _ (World.respects_tryReproduce w pos facing relative level program).abides
      fun q => World.intake_tryReproduce facing relative level program
        (hw.neighbor_lt hpos _) q
  | execute f =>
    obtain rfl := Except.ok.inj hact
    simp only [after, Deed.offers, Frame.stepOnce]
    by_cases hf : f.hasProgram
    · simp only [hf, if_true]
      exact h.queue _ (f.respects_execute w).abides (f.intake_execute hw hpos)
    · simp only [hf]
      exact h.quiet (fun _ => .refl _) fun _ => rfl
  | environment f tick =>
    obtain rfl := Except.ok.inj hact
    exact h.quiet (f.respects_advanceEnvironment w tick).abides (f.intake_advanceEnvironment w tick)
  | messages f =>
    obtain rfl := Except.ok.inj hact
    exact h.quiet (f.respects_queueMessages w).abides (f.intake_queueMessages w)
  | reset f =>
    obtain rfl := Except.ok.inj hact
    exact h.quiet (f.respects_reset w).abides (f.intake_reset w)
  | mark pos mark =>
    obtain rfl := Except.ok.inj hact
    exact h.touch pos (fun _ => ⟨rfl, rfl, rfl, fun _ => rfl⟩) fun _ => rfl
  | age pos ticks =>
    obtain rfl := Except.ok.inj hact
    exact h.touch pos (fun t => ⟨rfl, t.channel.ids_advanceAges ticks, rfl, fun _ => rfl⟩)
      fun _ => rfl
  | ageAt pos level delta =>
    obtain rfl := Except.ok.inj hact
    exact h.touch pos (fun _ => ⟨rfl, rfl, rfl, fun _ => rfl⟩) fun _ => rfl
  | grow pos amount =>
    obtain rfl := Except.ok.inj hact
    exact h.touch pos (fun _ => ⟨rfl, rfl, rfl, fun _ => rfl⟩) fun _ => rfl

theorem agrees_blank {config : Config α} (h : World.new config = .ok w) : blank.Agrees w := by
  have htile := World.tile_new h
  refine ⟨fun q => ?_, fun q hq => ?_, fun q o hq ho => ?_⟩
  · rw [htile]
    exact .nil
  · rw [htile] at hq
    cases hq
  · cases ho

/-- The occupant of `q` was settled from a sire of `p`, when `p` already had its present occupant. -/
def Bond (c : Chronicle) (p q : Nat) : Prop :=
  ∃ o, c.origin q = some o ∧ o.parent = p ∧ o.queued ≤ o.settled ∧ o.settled = c.era p

/-- The books of two living tiles say that one is the parent of the other just when there is such a
bond. -/
theorem Agrees.bond_iff (h : c.Agrees w) {p q : Nat} (hp : (w.tile p).live = true)
    (hq : (w.tile q).live = true) :
    ((w.tile p).family.hasChild q = true ∧ (w.tile q).family.isParent p = true) ↔ c.Bond p q := by
  have hparent := h.parent q hq
  constructor
  · rintro ⟨hchild, hpar⟩
    have hpar : (w.tile q).family.parent = some p := by simpa [Family.isParent] using hpar
    rw [hpar] at hparent
    obtain ⟨o, ho, rfl⟩ := Option.map_eq_some_iff.1 hparent
    obtain ⟨hqueued, -, hbond⟩ := h.origin q o hq ho
    exact ⟨o, ho, rfl, hqueued, (hbond hp).1 hchild⟩
  · rintro ⟨o, ho, rfl, -, hsettled⟩
    obtain ⟨-, -, hbond⟩ := h.origin q o hq ho
    rw [ho] at hparent
    exact ⟨(hbond hp).2 hsettled, by simp [Family.isParent, ← hparent]⟩

end Chronicle

/-! ## Runs -/

namespace World

variable {w₀ : World α} {c : Chronicle}

/-- The chronicle of any deeds agrees with the books. -/
theorem Chronicled.agrees {config : Config α} (h₀ : World.new config = .ok w₀)
    (h : w₀.Chronicled c w) : w.Sound ∧ c.Agrees w := by
  induction h with
  | start => exact ⟨sound_new h₀, Chronicle.agrees_blank h₀⟩
  | act d _ hd ih => exact ⟨ih.1.perform hd, ih.2.perform ih.1 hd⟩

/-- Every history can be written down. -/
theorem History.chronicled {deeds : List (Deed α)} {ids : List ChannelId}
    (h : History w₀ deeds ids w) : ∃ c, w₀.Chronicled c w := by
  induction h with
  | start => exact ⟨_, .start⟩
  | act d _ hd ih =>
    obtain ⟨c, hc⟩ := ih
    exact ⟨_, hc.act d hd⟩

/-- What cells sense of their parents and children. A living cell senses that it is the parent of a
living neighbour, and the neighbour that it is its child, exactly if the neighbour was settled from a
sire of the cell's tile since the cell has lived there. The worlds of dishes are no exception. -/
theorem parent_iff_settled {config : Config α} (h₀ : World.new config = .ok w₀) :
    (∀ c w, w₀.Chronicled c w → ∀ p q facing relative,
      (w.tile p).live = true → (w.tile q).live = true →
      (w.neighbor p (facing.turn relative) = q →
        ((⟨w, p, facing⟩ : Sensor α).isCellParent relative = true ↔ c.Bond p q)) ∧
      (w.neighbor q (facing.turn relative) = p →
        ((⟨w, q, facing⟩ : Sensor α).isCellChild relative = true ↔ c.Bond p q))) ∧
    ∀ d : Dish α, d.Reachable config → ∃ c, w₀.Chronicled c d.world := by
  constructor
  · intro c w hw p q facing relative hp hq
    have hbond := (hw.agrees h₀).2.bond_iff hp hq
    constructor
    · rintro rfl
      rw [← hbond]
      simp only [Sensor.isCellParent, Sensor.there, Sensor.here, Sensor.neighbor, Sensor.direction,
        hq, Bool.true_and, Bool.and_eq_true]
    · rintro rfl
      rw [← hbond, and_comm]
      simp only [Sensor.isCellChild, Sensor.there, Sensor.here, Sensor.neighbor, Sensor.direction,
        hp, Bool.true_and, Bool.and_eq_true]
  · intro d hd
    obtain ⟨-, v₀, deeds, ids, hv, hw⟩ := hd.history
    obtain rfl := Except.ok.inj (h₀.symm.trans hv)
    exact hw.chronicled

def recount : List (Deed α) → Chronicle → World α → Except Fault (Chronicle × World α)
  | [], c, w => .ok (c, w)
  | d :: rest, c, w => do
    let v ← d.perform w
    recount rest (c.after w d) v

theorem Chronicled.of_recount {deeds : List (Deed α)} {c' : Chronicle} (h : w₀.Chronicled c w)
    (hr : recount deeds c w = .ok (c', w')) : w₀.Chronicled c' w' := by
  induction deeds generalizing c w with
  | nil =>
    obtain ⟨rfl, rfl⟩ := Prod.mk.inj (Except.ok.inj hr)
    exact h
  | cons d rest ih =>
    obtain ⟨v, hd, hr⟩ := bind_eq_ok hr
    exact ih (h.act d hd) hr

theorem exists_chronicled {config : Config α} {deeds : List (Deed α)}
    {test : Chronicle × World α → Bool}
    (h : yields (World.new config) (fun w => yields (recount deeds .blank w) test) = true) :
    ∃ w₀ c w, World.new config = .ok w₀ ∧ w₀.Chronicled c w ∧ test (c, w) = true := by
  obtain ⟨w₀, h₀, h⟩ := of_yields h
  obtain ⟨⟨c, w⟩, hr, h⟩ := of_yields h
  exact ⟨w₀, c, w, h₀, Chronicled.start.of_recount hr, h⟩

def couple : Config Rat :=
  { Config.standard with gridWidth := 2, gridHeight := 1, repThresh := 0 }

def offspring : List (Deed Rat) :=
  [.found 0 .zero, .reproduce 0 .right 0 0 .none, .settle 1 .zero]

/-- The founder senses its offspring, which was queued and settled in the first era of its tile. -/
theorem parent_iff_settled_offspring : ∃ w₀ c w, World.new couple = .ok w₀ ∧ w₀.Chronicled c w ∧
    c.Bond 0 1 ∧ (⟨w, 0, .right⟩ : Sensor Rat).isCellParent 0 = true := by
  have hrun : yields (World.new couple) (fun w => yields (recount offspring .blank w) fun r =>
      (r.2.tile 0).live && (r.2.tile 1).live &&
        decide (r.2.neighbor 0 (Direction.right.turn (0 : Rat)) = 1 ∧
          r.1.origin 1 = some ⟨0, 1, 1⟩ ∧ r.1.era 0 = 1)) = true := by decide +kernel
  obtain ⟨w₀, c, w, h₀, hw, htest⟩ := exists_chronicled hrun
  simp only [Bool.and_eq_true, decide_eq_true_eq] at htest
  obtain ⟨⟨hp, hq⟩, hn, ho, he⟩ := htest
  have hbond : c.Bond 0 1 := ⟨_, ho, rfl, Nat.le_refl _, he.symm⟩
  have hsense := ((parent_iff_settled h₀).1 c w hw 0 1 .right 0 hp hq).1 hn
  exact ⟨w₀, c, w, h₀, hw, hbond, hsense.2 hbond⟩

/-- The founder dies while its sire waits, and another founder takes its place before the sire is
settled. -/
def usurped : List (Deed Rat) :=
  [.found 0 .zero, .reproduce 0 .right 0 0 .none, .vacate 0, .found 0 .zero, .settle 1 .zero]

/-- The second founder passes for the parent, although the sire was queued in the era of the first. -/
theorem parent_usurped : ∃ w₀ c w o, World.new couple = .ok w₀ ∧ w₀.Chronicled c w ∧
    (w.tile 0).live = true ∧ (w.tile 1).live = true ∧
    (⟨w, 0, .right⟩ : Sensor Rat).isCellParent 0 = true ∧
    (⟨w, 1, .left⟩ : Sensor Rat).isCellChild 0 = true ∧
    c.origin 1 = some o ∧ o.parent = 0 ∧ o.queued < c.era 0 := by
  have hrun : yields (World.new couple) (fun w => yields (recount usurped .blank w) fun r =>
      (r.2.tile 0).live && (r.2.tile 1).live &&
        (⟨r.2, 0, .right⟩ : Sensor Rat).isCellParent 0 &&
        (⟨r.2, 1, .left⟩ : Sensor Rat).isCellChild 0 &&
        decide (r.1.origin 1 = some ⟨0, 1, 3⟩ ∧ r.1.era 0 = 3)) = true := by decide +kernel
  obtain ⟨w₀, c, w, h₀, hw, htest⟩ := exists_chronicled hrun
  simp only [Bool.and_eq_true, decide_eq_true_eq] at htest
  obtain ⟨⟨⟨⟨hp, hq⟩, hparent⟩, hchild⟩, ho, he⟩ := htest
  exact ⟨w₀, c, w, _, h₀, hw, hp, hq, hparent, hchild, ho, rfl, by rw [he]; decide⟩

end World

end Vivarium
