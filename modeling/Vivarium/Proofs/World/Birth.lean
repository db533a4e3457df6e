import Mathlib.Order.Bounds.Defs
import Vivarium.Proofs.World.Offers
import Vivarium.Proofs.World.Threshold
/-!
# Births

A reproduction that goes through queues a sire, and when the sire is settled, at whatever time and after
whatever else has happened, the offspring has the lineage that its parent had when it reproduced, provided
the parent's tile has not changed hands. The threshold that the parent was debited comes with it.
-/
namespace Vivarium

variable {α : Type} [Scalar α]

/-! ## Reproduction -/

theorem Direction.ofNat_val (d : Direction) : ofNat d = d := by revert d; decide

/-- The first open level is the least one that is not expired, if none is paused up to it. -/
theorem firstOpen_eq_some_iff {paused expired : Nat → Bool} {n level used : Nat} :
    firstOpen paused expired n level = some used ↔
      IsLeast {l | level ≤ l ∧ l < level + n ∧ expired l = false} used ∧
        ∀ l, level ≤ l → l ≤ used → paused l = false := by
  induction n generalizing level with
  | zero =>
    simp only [firstOpen]
    constructor
    · intro h
      cases h
    · rintro ⟨⟨⟨hle, hlt, -⟩, -⟩, -⟩
      omega
  | succ n ih =>
    rw [firstOpen]
    cases hpaused : paused level with
    | true =>
      rw [if_pos rfl]
      constructor
      · intro h
        cases h
      · rintro ⟨⟨⟨hle, -⟩, -⟩, hfree⟩
        cases hpaused.symm.trans (hfree level le_rfl hle)
    | false =>
      cases hexpired : expired level with
      | true =>
        -- the level itself is out, so the least one above it is the least one from it on
        rw [if_neg Bool.false_ne_true, if_pos rfl, ih]
        constructor
        · rintro ⟨⟨⟨hle, hlt, hopen⟩, hleast⟩, hfree⟩
          refine ⟨⟨⟨by omega, by omega, hopen⟩, ?_⟩, ?_⟩
          · rintro l ⟨hl, hmax, hl'⟩
            rcases hl.eq_or_lt with rfl | hl
            · cases hexpired.symm.trans hl'
            · exact hleast ⟨hl, by omega, hl'⟩
          · intro l hl hused
            rcases hl.eq_or_lt with rfl | hl
            · exact hpaused
            · exact hfree l hl hused
        · rintro ⟨⟨⟨hle, hlt, hopen⟩, hleast⟩, hfree⟩
          rcases hle.eq_or_lt with rfl | hle
          · cases hexpired.symm.trans hopen
          · refine ⟨⟨⟨hle, by omega, hopen⟩, ?_⟩, fun l hl => hfree l (by omega)⟩
            rintro l ⟨hl, hmax, hl'⟩
            exact hleast ⟨by omega, by omega, hl'⟩
      | false =>
        rw [if_neg Bool.false_ne_true, if_neg Bool.false_ne_true]
        constructor
        · intro h
          obtain rfl := Option.some.inj h
          refine ⟨⟨⟨le_rfl, by omega, hexpired⟩, fun l hl => hl.1⟩, fun l hl hused => ?_⟩
          rwa [← le_antisymm hl hused]
        · rintro ⟨⟨⟨hle, -, -⟩, hleast⟩, -⟩
          have hused : used ≤ level := hleast ⟨le_rfl, by omega, hexpired⟩
          rw [le_antisymm hle hused]

namespace World

variable {w w₁ : World α} {a level used : Nat} {facing : Direction} {relative : α}
  {program : Program FrameOp}

def sireOf (w : World α) (pos : Nat) (facing : Direction) (relative : α) (level : Nat)
    (program : Program FrameOp) : Sire α FrameOp :=
  ⟨w.record pos (facing.turn relative) level, program,
    (w.tile pos).stockpile.available w.config.repThresh⟩

theorem of_reproductionLevel? (h : w.reproductionLevel? a facing level = some used) :
    w.canAfford a facing = true ∧ used ≤ w.config.nlev := by
  unfold reproductionLevel? at h
  split at h
  · next hc =>
    obtain ⟨⟨⟨hle, hlt, -⟩, -⟩, -⟩ := firstOpen_eq_some_iff.1 h
    exact ⟨hc, by omega⟩
  · cases h

/-- What a reproduction that goes through has done. -/
theorem of_tryReproduce_eq_some
    (h : w.tryReproduce a facing relative level program = (some used, w₁)) :
    w.reproductionLevel? a facing level = some used ∧
      w₁ = (w.modifyStockpile a fun _ =>
        ((w.tile a).stockpile.request w.config.repThresh).2).receive
          (w.neighbor a (facing.turn relative)) (w.sireOf a facing relative used program) := by
  unfold tryReproduce at h
  cases hl : w.reproductionLevel? a facing level with
  | none =>
    rw [hl] at h
    cases h
  | some used' =>
    rw [hl] at h
    obtain ⟨hused, hw⟩ := Prod.mk.inj h
    obtain rfl := Option.some.inj hused
    exact ⟨rfl, hw.symm⟩

end World

/-! ## Turning losers away -/

namespace Stockpile

/-- A balance to which some amounts are credited. What is not finite and positive does not count. -/
def accrue (balance : α) (amounts : List α) : α :=
  amounts.foldl (fun sum x => if Scalar.isFinite x && decide (0 < x) then sum + x else sum) balance

/-- The stockpile, once the endowments of some sires have come back to it. -/
def reclaim (s : Stockpile α) (sires : List (Sire α FrameOp)) : Stockpile α :=
  sires.foldl (fun s sire => s.contribute sire.endowment (.ofNat sire.record.dir)) s

theorem accrue_append (balance : α) (xs ys : List α) :
    accrue balance (xs ++ ys) = accrue (accrue balance xs) ys := List.foldl_append

theorem resource_contribute_eq_accrue (s : Stockpile α) (amount : α) (d : Direction) :
    (s.contribute amount d).resource = accrue s.resource [amount] := by
  rw [contribute, accrue, List.foldl_cons, List.foldl_nil]
  exact apply_ite Stockpile.resource _ _ _

theorem resource_reclaim (s : Stockpile α) (sires : List (Sire α FrameOp)) :
    (s.reclaim sires).resource = accrue s.resource (sires.map (·.endowment)) := by
  induction sires generalizing s with
  | nil => rfl
  | cons sire rest ih =>
    rw [reclaim, List.foldl_cons]
    refine (ih _).trans ?_
    rw [resource_contribute_eq_accrue]
    rfl

end Stockpile

namespace World

variable {config : Config α} {w : World α}

/-- Each tile gets back what its own sires carried, in their order. -/
theorem stockpile_credits (w : World α) (sires : List (Sire α FrameOp)) {q : Nat} (hq : q < w.size) :
    ((sires.foldl credit w).tile q).stockpile =
      (w.tile q).stockpile.reclaim (sires.filter (·.record.sourcePos = q)) := by
  induction sires generalizing w with
  | nil => rfl
  | cons sire rest ih =>
    rw [List.foldl_cons, ih _ (by rwa [size_credit]), credit, modifyStockpile, tile_modify]
    by_cases hs : sire.record.sourcePos = q
    · rw [List.filter_cons_of_pos (by simp [hs]), if_pos ⟨hs.symm, hs ▸ hq⟩]
      rfl
    · rw [List.filter_cons_of_neg (by simp [hs]), if_neg fun h => hs h.1.symm]

theorem stockpile_turnedAway (w : World α) (pos : Nat) (sires : List (Sire α FrameOp)) {q : Nat}
    (hq : q < w.size) :
    ((sires.foldl credit (w.clearIntake pos)).tile q).stockpile =
      (w.tile q).stockpile.reclaim (sires.filter (·.record.sourcePos = q)) := by
  have hclear : ((w.clearIntake pos).tile q).stockpile = (w.tile q).stockpile :=
    w.tile_modify_congr (·.stockpile) pos q fun _ => rfl
  rw [stockpile_credits _ _ (by rwa [clearIntake, size_modify]), hclear]

/-! ## Settlements -/

/-- The world once the first of the waiting sires has settled and the others are turned away. -/
def settled (w : World α) (pos : Nat) (tick : Tick) (sire : Sire α FrameOp) (losers : List (Sire α FrameOp)) :
    World α := (losers.foldl credit (w.clearIntake pos)).install pos tick sire

variable {p r : Nat} {sire : Sire α FrameOp}

/-- The tile on which the sire settles. -/
theorem tile_settled_same (hp : p < w.size) (hs : sire.record.sourcePos < w.size) (tick : Tick)
    (losers : List (Sire α FrameOp)) : (w.settled p tick sire losers).tile p =
      { w.tile p with
        intake := []
        channel := (Channel.ofSire w.config.levels sire.record w.rng).1
        family :=
          if p = sire.record.sourcePos then
            (Family.settled (some sire.record.sourcePos) tick sire.record.prevChan).addChild p
          else .settled (some sire.record.sourcePos) tick sire.record.prevChan
        stockpile := ((w.tile p).stockpile.reclaim
          (losers.filter (·.record.sourcePos = p))).contribute sire.endowment
            (Direction.ofNat sire.record.dir).opposite }.occupy := by
  have hst := stays_turnedAway w p losers
  have hstockpile := stockpile_turnedAway w p losers hp
  obtain ⟨stockpile, haway⟩ := w.exists_tile_turnedAway p losers p
  rw [settled, tile_install_same (hst.size.symm ▸ hp) (hst.size.symm ▸ hs), hst.config, hst.rng, hstockpile,
    haway, if_pos rfl]

/-- All other tiles. The parent has a new child. -/
theorem tile_settled_other (hr : r < w.size) (hs : sire.record.sourcePos < w.size) (hrp : r ≠ p) (tick : Tick)
    (losers : List (Sire α FrameOp)) : (w.settled p tick sire losers).tile r =
      { w.tile r with
        stockpile := (w.tile r).stockpile.reclaim (losers.filter (·.record.sourcePos = r))
        family := if r = sire.record.sourcePos then (w.tile r).family.addChild p else (w.tile r).family } := by
  have hst := stays_turnedAway w p losers
  have hstockpile := stockpile_turnedAway w p losers hr
  obtain ⟨stockpile, haway⟩ := w.exists_tile_turnedAway p losers r
  rw [haway] at hstockpile
  rw [settled, tile_install_other (hst.size.symm ▸ hs) tick hrp, haway, if_neg hrp, ← hstockpile]

theorem settled_ground (w : World α) (pos : Nat) (tick : Tick) (sire : Sire α FrameOp)
    (losers : List (Sire α FrameOp)) :
    (w.settled pos tick sire losers).config = w.config ∧ (w.settled pos tick sire losers).grid = w.grid ∧
      (w.settled pos tick sire losers).size = w.size ∧
      (w.settled pos tick sire losers).rng =
        (w.rng.draw (sire.record.renewals w.config.levels.length)).2 := by
  have hst := stays_turnedAway w pos losers
  obtain ⟨hconfig, hgrid, hsize, hrng⟩ := install_ground (losers.foldl credit (w.clearIntake pos)) pos tick sire
  rw [hst.config, hst.rng] at hrng
  exact ⟨hconfig.trans hst.config, hgrid.trans hst.grid, hsize.trans hst.size, hrng⟩

@[simp] theorem size_settled (w : World α) (pos : Nat) (tick : Tick) (sire : Sire α FrameOp)
    (losers : List (Sire α FrameOp)) : (w.settled pos tick sire losers).size = w.size :=
  (w.settled_ground pos tick sire losers).2.2.1

/-! ## Births -/

/-- The offspring that has settled at `b` in `after`, coming from `before`. Its sire was queued in `queued`
by the occupant of `a`, which reproduced at level `used`, and waited there in front of the `losers`. -/
structure Birth (config : Config α) (queued before after : World α) (a b used : Nat) (dir : Direction)
    (tick : Tick) (losers : List (Sire α FrameOp)) : Prop where
  live : (after.tile b).live = true
  /-- The parent is still who it was. -/
  parent : (queued.tile a).SameOccupant (after.tile a)
  above : ∀ l, used ≤ l → l < config.nlev →
    (after.tile b).channel.matchesAt (after.tile a).channel l = true ∧
      (after.tile b).channel.generation l = Word.add ((after.tile a).channel.generation l) 1 ∧
      (after.tile b).channel.age l = (queued.tile a).channel.age l
  below : ∀ l, l < used →
    (after.tile b).channel.id? l = (before.rng.draw used).1[l]? ∧
      (after.tile b).channel.generation l = 0 ∧ (after.tile b).channel.age l = 0
  rng : after.rng = (before.rng.draw used).2
  family : (after.tile b).family =
    { parent := some a
      children := .empty
      birth := tick
      prevChan :=
        if used < config.nlev then (after.tile a).family.prevChan
        else (after.tile a).channel.id? (config.nlev - 1) }
  /-- The parent has one child more, and nothing else is new in its family. -/
  bonds : ∃ children, (after.tile a).family = { (before.tile a).family with children }
  child : ∀ q, (after.tile a).family.hasChild q = (q == b || (before.tile a).family.hasChild q)
  stockpile : (after.tile b).stockpile =
    ((before.tile b).stockpile.reclaim (losers.filter (·.record.sourcePos = b))).contribute
      config.repThresh dir.opposite
  /-- The tile is credited with the threshold, after what its own losers bring back. -/
  credited : (after.tile b).stockpile.resource = Stockpile.accrue (before.tile b).stockpile.resource
    ((losers.filter (·.record.sourcePos = b)).map (·.endowment) ++ [config.repThresh])
  balance : (∀ s ∈ losers, s.record.sourcePos ≠ b) → (after.tile b).stockpile.resource =
    if 0 < config.repThresh then (before.tile b).stockpile.resource + config.repThresh
    else (before.tile b).stockpile.resource

theorem Run.size_eq (h : Run config w) :
    w.size = (⟨config.gridWidth, config.gridHeight⟩ : Grid).size := by
  rw [← h.grid_eq, h.sound.grid_size]

/-- The record of a tile that holds a channel has its identifiers, one for every level. -/
theorem Run.ids_record (h : Run config w) {pos : Nat} (dir : Direction) (level : Nat)
    (hids : (w.tile pos).channel.ids.isSome = true) :
    (w.record pos dir level).ids.length = config.nlev ∧
      ∀ l, (w.tile pos).channel.id? l = (w.record pos dir level).ids[l]? := by
  obtain ⟨ids, hids⟩ := Option.isSome_iff_exists.1 hids
  constructor
  · rw [record, hids]
    exact (h.shaped.tiles pos).channel.ids ids hids
  · intro l
    rw [record, Channel.id?, hids]
    rfl

end World

theorem Channel.matchesAt_of_id? {c d : Channel} {l : Nat} {id : ChannelId} (hc : c.id? l = some id)
    (hd : d.id? l = some id) : c.matchesAt d l = true := by
  unfold matchesAt
  rw [hc, hd]
  exact beq_self_eq_true id

/-- A finite amount is credited in full. -/
theorem Stockpile.resource_contribute_of_finite (s : Stockpile α) {amount : α}
    (h : Scalar.isFinite amount = true) (d : Direction) :
    (s.contribute amount d).resource = if 0 < amount then s.resource + amount else s.resource := by
  unfold contribute creditable
  rw [h, Bool.true_and]
  by_cases h0 : 0 < amount
  · rw [if_pos (decide_eq_true h0), if_pos h0]
  · rw [if_neg (by simpa using h0), if_neg h0]

namespace World

variable {config : Config α} {w w₁ w₂ : World α} {a b level used : Nat} {facing : Direction}
  {relative : α} {program : Program FrameOp} {losers : List (Sire α FrameOp)}

/-- The offspring of a sire has the parent's lineage from the level of reproduction up, one generation
on, and below it a new one. -/
theorem channel_offspring (hw : Run config w) (h₂ : Run config w₂)
    (hids : (w.tile a).channel.ids.isSome = true) {dir : Direction} (hused : used ≤ config.nlev)
    {child : Channel}
    (hchild : child = (Channel.ofSire w₂.config.levels (w.record a dir used) w₂.rng).1) :
    (∀ l, used ≤ l → l < config.nlev → (∃ id, child.id? l = some id ∧
        (w.tile a).channel.id? l = some id) ∧
      child.generation l = Word.add ((w.tile a).channel.generation l) 1 ∧
      child.age l = (w.tile a).channel.age l) ∧
    ∀ l, l < used → child.id? l = (w₂.rng.draw used).1[l]? ∧ child.generation l = 0 ∧
      child.age l = 0 := by
  obtain ⟨hlength, hid⟩ := hw.ids_record dir used hids
  have hlevels : w₂.config.levels.length = config.nlev := by
    rw [h₂.shaped.config_eq]
    exact (Config.levels_of_validate h₂.validate).1
  have hmatch := hlength.trans hlevels.symm
  subst hchild
  constructor
  · intro l hl hmax
    obtain ⟨hchild, hgeneration, hage⟩ :=
      Channel.ofSire_above hmatch hl (hlevels.symm ▸ hmax) w₂.rng
    have hhere := List.getElem?_eq_getElem (hlength.symm ▸ hmax)
    exact ⟨⟨_, hchild.trans hhere, (hid l).trans hhere⟩, hgeneration, hage⟩
  · intro l hl
    exact Channel.ofSire_below hmatch hl (hlevels.symm ▸ hused) w₂.rng

variable [Scalar.Numeric α]

/-- The parent is the same occupant when the sire settles as when it was queued, so both of them tell of
its lineage. -/
theorem birth_install (hw : Run config w) (h₂ : Run config w₂) (ha : a < w₂.size) (hb : b < w₂.size)
    (hab : b ≠ a) (hids : (w.tile a).channel.ids.isSome = true) (hused : used ≤ config.nlev)
    (hafford : w.canAfford a facing = true) (hsame : (w.tile a).SameOccupant (w₂.tile a))
    (tick : Tick) :
    Birth config w w₂ (w₂.settled b tick (w.sireOf a facing relative used program) losers) a b used
      (facing.turn relative) tick losers := by
  have hsource : (w.sireOf a facing relative used program).record.sourcePos = a := rfl
  have hrenewals : (w.sireOf a facing relative used program).record.renewals config.nlev = used :=
    SireRecord.renewals_eq_level (hw.ids_record _ used hids).1 hused
  have hparent := tile_settled_other ha (hsource.symm ▸ ha) hab.symm tick losers
  rw [hsource, if_pos rfl] at hparent
  have hoffspring := tile_settled_same hb (hsource.symm ▸ ha) tick losers
  rw [hsource, if_neg hab] at hoffspring
  have hrng := (w₂.settled_ground b tick (w.sireOf a facing relative used program) losers).2.2.2
  rw [h₂.shaped.config_eq, (Config.levels_of_validate hw.validate).1, hrenewals] at hrng
  generalize w₂.settled b tick (w.sireOf a facing relative used program) losers = w₃ at hparent hoffspring hrng ⊢
  have hkept : (w.tile a).SameOccupant (w₃.tile a) := by
    rw [hparent]
    exact hsame.trans ⟨rfl, rfl, rfl, rfl⟩
  obtain ⟨habove, hbelow⟩ := channel_offspring hw h₂ hids hused (congrArg (·.channel) hoffspring)
  have hstockpile : (w₃.tile b).stockpile =
      ((w₂.tile b).stockpile.reclaim (losers.filter (·.record.sourcePos = b))).contribute
        config.repThresh (facing.turn relative).opposite := by
    rw [← hw.available_eq hafford, ← Direction.ofNat_val (facing.turn relative)]
    exact congrArg (·.stockpile) hoffspring
  constructor
  · exact congrArg (·.live) hoffspring
  · exact hkept
  · intro l hl hmax
    obtain ⟨⟨id, hchild, hid⟩, hgeneration, hage⟩ := habove l hl hmax
    rw [hkept.generation_eq]
    exact ⟨Channel.matchesAt_of_id? hchild ((hkept.id?_eq l).trans hid), hgeneration, hage⟩
  · exact hbelow
  · exact hrng
  · rw [hkept.prevChan, hkept.id?_eq, ← hw.shaped.config_eq]
    exact congrArg (·.family) hoffspring
  · exact ⟨_, congrArg (·.family) hparent⟩
  · intro q
    rw [congrArg (·.family) hparent]
    exact Family.hasChild_addChild _ b q
  · exact hstockpile
  · rw [hstockpile, Stockpile.resource_contribute_eq_accrue, Stockpile.resource_reclaim,
      Stockpile.accrue_append]
  · intro hlosers
    have hnone : losers.filter (·.record.sourcePos = b) = [] :=
      List.filter_eq_nil_iff.2 fun s hs => by simpa using hlosers s hs
    rw [hstockpile, hnone]
    exact Stockpile.resource_contribute_of_finite _
      (Config.threshold_of_validate hw.validate).1 _

/-- The lineage of a birth, end to end. A reproduction that goes through at level `used` debits the
threshold and queues a sire at the target. Whenever the sire is the first to wait there, after anything that
leaves the parent's tile its occupant, settling it loads the parent's program and gives the offspring its
parent's lineage from that level up, one generation on, a new one below it, and the threshold. -/
theorem lineage_of_birth (hw : Run config w) (ha : a < w.size)
    (hids : (w.tile a).channel.ids.isSome = true)
    (hb : w.neighbor a (facing.turn relative) = b) (hab : b ≠ a)
    (hr : w.tryReproduce a facing relative level program = (some used, w₁)) :
    used ≤ config.nlev ∧
    (w₁.tile a).stockpile.resource = (w.tile a).stockpile.resource - config.repThresh ∧
    ∃ sire, (w₁.tile b).intake = (w.tile b).intake ++ [sire] ∧ sire.endowment = config.repThresh ∧
      ∀ w₂ losers tick, w₁.Tenure a w₂ → (w₂.tile b).intake = sire :: losers →
        ∃ w₃, w₂.settleSire b tick = .ok (some program, w₃) ∧
          Birth config w w₂ w₃ a b used (facing.turn relative) tick losers := by
  obtain ⟨hlevel, hw₁⟩ := of_tryReproduce_eq_some hr
  obtain ⟨hafford, hused⟩ := of_reproductionLevel? hlevel
  rw [hw.shaped.config_eq] at hused
  have hpay := hw.available_eq hafford
  have hlt : b < w.size := hb ▸ hw.sound.neighbor_lt ha _
  have hact : (Deed.reproduce a facing relative level program).perform w = .ok w₁ := by
    have hpos : (Deed.reproduce a facing relative level program).pos < w.size := ha
    rw [Deed.perform, if_pos hpos, Deed.act, hr]
  have hrun := hw.deed _ hact
  rw [hb] at hw₁
  refine ⟨hused, ?_, w.sireOf a facing relative used program, ?_, hpay, fun w₂ losers tick ht hin => ?_⟩
  · rw [hw₁, receive, tile_modify_other _ _ hab.symm, modifyStockpile, tile_modify_same _ _ ha]
    exact congrArg ((w.tile a).stockpile.resource - ·) hpay
  · rw [hw₁, intake_receive _ (by rwa [modifyStockpile, size_modify]), intake_modifyStockpile,
      offersTo_singleton, if_pos rfl]
  · have h₂ := ht.run hrun
    have hsize : w₂.size = w.size := h₂.size_eq.trans hw.size_eq.symm
    have hsame : (w.tile a).SameOccupant (w₂.tile a) := by
      have hfirst := (w.upkept_tryReproduce a facing relative level program a).sameOccupant
      rw [hr] at hfirst
      exact hfirst.trans (ht.upkept hrun).sameOccupant
    refine ⟨_, settleSire_eq hin (fun s hs => h₂.sound.sources b s (hin ▸ hs)) tick, ?_⟩
    exact birth_install hw h₂ (hsize.symm ▸ ha) (hsize.symm ▸ hlt) hab hids hused hafford hsame tick

/-- Three levels on two tiles, the lowest of which expires first. -/
def terrace : Config Float :=
  { Config.withLevels 3 500 with gridWidth := 2, gridHeight := 1, levels := [⟨5⟩, ⟨50⟩, ⟨500⟩] }

def matured : List (Deed Float) := [.found 0 .zero, .grow 0 30, .age 0 6]

/-- The founder reproduces one level up. Before its sire is settled it queues another and ages on. -/
theorem lineage_of_birth_terrace : ∃ w w₁ w₂ w₃ losers, Run terrace w ∧
    w.tryReproduce 0 .right 0 0 .none = (some 1, w₁) ∧ w₁.Tenure 0 w₂ ∧ losers.length = 1 ∧
    w₂.settleSire 1 ⟨7⟩ = .ok (some .none, w₃) ∧
    Birth terrace w w₂ w₃ 0 1 1 (Direction.right.turn (0 : Float)) ⟨7⟩ losers := by
  have hrun : leadsTo terrace matured (fun _ w =>
      let reproduced := w.tryReproduce 0 .right 0 0 .none
      (w.tile 0).channel.ids.isSome &&
        decide (0 < w.size ∧ w.neighbor 0 (Direction.right.turn (0 : Float)) = 1 ∧
          reproduced.1 = some 1 ∧ (w.tile 1).intake = []) &&
        yields ((Deed.reproduce 0 .right 0 2 .none).perform reproduced.2) fun u =>
          yields ((Deed.age 0 1).perform u) fun v => decide (
            (v.tile 1).intake.take 1 = (reproduced.2.tile 1).intake ∧
              ((v.tile 1).intake.drop 1).length = 1)) = true := by decide +kernel
  obtain ⟨w₀, ids, w, h₀, hw, ht⟩ := exists_history hrun
  simp only [Bool.and_eq_true, decide_eq_true_eq] at ht
  obtain ⟨⟨hids, hsize, hn, hused, hempty⟩, hmore⟩ := ht
  obtain ⟨u, hu, hmore⟩ := of_yields hmore
  obtain ⟨v, hv, hmore⟩ := of_yields hmore
  obtain ⟨hfirst, hrest⟩ := of_decide_eq_true hmore
  have hr : w.tryReproduce 0 .right 0 0 .none =
      (some 1, (w.tryReproduce 0 .right 0 0 .none).2) := Prod.ext hused rfl
  obtain ⟨-, -, sire, hqueued, -, hbirth⟩ :=
    lineage_of_birth (Run.of_history h₀ hw) hsize hids hn (by decide) hr
  have htenure : (w.tryReproduce 0 .right 0 0 .none).2.Tenure 0 v :=
    (Tenure.start.deed _ id hu).deed _ id hv
  rw [hqueued, hempty] at hfirst
  have hin : (v.tile 1).intake = sire :: (v.tile 1).intake.drop 1 := by
    have hsplit := List.take_append_drop 1 (v.tile 1).intake
    rw [hfirst] at hsplit
    exact hsplit.symm
  obtain ⟨w₃, hs, hb⟩ := hbirth v _ ⟨7⟩ htenure hin
  exact ⟨w, _, v, w₃, _, Run.of_history h₀ hw, hr, htenure, hrest, hs, hb⟩

end World

end Vivarium
