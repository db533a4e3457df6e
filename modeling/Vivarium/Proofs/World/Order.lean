import Mathlib.Data.List.Sort
import Vivarium.Proofs.Frame.Commuting
import Vivarium.Proofs.World.Birth
/-!
# The order of settlements

Two tiles that take an offspring each can do so in either order. The same programs are returned, and the worlds
differ in the values of drawn identifiers only, save for one thing. A tile that is the parent of the other's
offspring, and takes an offspring itself, keeps the other's among the children if it is first, and forgets it if
it is second.
-/
namespace Vivarium

/-! ## Credits and children in either order -/

theorem Positions.insert_comm (ps : Positions) (p q : Nat) :
    (ps.insert p).insert q = (ps.insert q).insert p := by
  refine eq_of_toList_eq (((ps.insert p).insert q).ascending.eq_of_mem_iff ((ps.insert q).insert p).ascending ?_)
  intro r
  simp only [insert, mem_put, or_left_comm]

theorem Family.addChild_comm (f : Family) (p q : Nat) :
    (f.addChild p).addChild q = (f.addChild q).addChild p := by
  simp only [addChild, f.children.insert_comm p q]

namespace Stockpile

variable (s : Stockpile Rat)

/-- Exact contributions may be made in either order. -/
theorem contribute_comm (x y : Rat) (d e : Direction) :
    (s.contribute x d).contribute y e = (s.contribute y e).contribute x d := by
  have hresource : s.resource + x + y = s.resource + y + x := add_right_comm _ _ _
  have hsides : (s.contributions.modify d (· + x)).modify e (· + y) =
      (s.contributions.modify e (· + y)).modify d (· + x) :=
    s.contributions.modify_comm d e fun z => add_right_comm z x y
  unfold contribute
  cases hx : creditable x with
  | false => simp only [Bool.false_eq_true, if_false]
  | true =>
    cases hy : creditable y with
    | false => simp only [Bool.false_eq_true, if_false]
    | true => simp only [if_true, hresource, hsides]

theorem reclaim_contribute (sires : List (Sire Rat FrameOp)) (x : Rat) (d : Direction) :
    (s.contribute x d).reclaim sires = (s.reclaim sires).contribute x d := by
  induction sires generalizing s with
  | nil => rfl
  | cons sire rest ih =>
    change ((s.contribute x d).contribute sire.endowment _).reclaim rest = _
    rw [contribute_comm, ih]
    rfl

theorem reclaim_comm (sires sires' : List (Sire Rat FrameOp)) :
    (s.reclaim sires).reclaim sires' = (s.reclaim sires').reclaim sires := by
  induction sires' generalizing s with
  | nil => rfl
  | cons sire rest ih =>
    change ((s.reclaim sires).contribute sire.endowment _).reclaim rest = _
    rw [← reclaim_contribute, ih]
    rfl

end Stockpile

/-! ## Channels of an offspring -/

/-- Channels that agree in all but identifiers at the levels marked. -/
structure Channel.AgreesBut (fresh : Nat → Bool) (c d : Channel) : Prop where
  generations : d.generations = c.generations
  ages : d.ages = c.ages
  expirations : d.expirations = c.expirations
  length : d.ids.map List.length = c.ids.map List.length
  ids : ∀ level, fresh level = false → d.id? level = c.id? level

namespace Channel

theorem AgreesBut.refl (fresh : Nat → Bool) (c : Channel) : c.AgreesBut fresh c :=
  ⟨rfl, rfl, rfl, rfl, fun _ _ => rfl⟩

/-- A level that does not start afresh has the same identifier whatever was drawn. -/
theorem id_inheritAll {r : SireRecord} {levels : List Nat} {k level : Nat} (hk : levels[k]? = some level)
    (h : r.renews level = false) (g : Generator) :
    (inheritAll r levels g).1[k]?.map (·.id) = r.ids[level]? := by
  induction levels generalizing k g with
  | nil => cases hk
  | cons first rest ih =>
    cases k with
    | zero =>
      obtain rfl := Option.some.inj hk
      exact (inherit_of_keeps h g).2.symm
    | succ k => exact ih hk _

/-- What an offspring inherits does not depend on the generator. -/
theorem agreesBut_ofSire (levels : List Level) (r : SireRecord) (g g' : Generator) :
    (ofSire levels r g).1.AgreesBut r.renews (ofSire levels r g').1 := by
  have hbequest := (bequest_inheritAll r (List.range levels.length) g').trans
    (bequest_inheritAll r (List.range levels.length) g).symm
  have hlength (g : Generator) : (inheritAll r (List.range levels.length) g).1.length = levels.length := by
    rw [length_inheritAll, List.length_range]
  refine ⟨?_, ?_, rfl, ?_, fun level hkeeps => ?_⟩
  · have hmap := congrArg (List.map Prod.fst) hbequest
    rwa [List.map_map, List.map_map] at hmap
  · have hmap := congrArg (List.map Prod.snd) hbequest
    rwa [List.map_map, List.map_map] at hmap
  · simp only [ofSire, Option.map_some, List.length_map, hlength]
  · have hid (g : Generator) : (ofSire levels r g).1.id? level =
        if level < levels.length then r.ids[level]? else none := by
      change ((inheritAll r (List.range levels.length) g).1.map (·.id))[level]? = _
      rw [List.getElem?_map]
      split
      · next hl => exact id_inheritAll (List.getElem?_range hl) hkeeps g
      · next hl => rw [List.getElem?_eq_none (by rw [hlength]; omega), Option.map_none]
    rw [hid, hid]

end Channel

/-! ## Tiles after a settlement -/

namespace World

section Settled

variable {α : Type} [Scalar α]

theorem triggerTags_settled (w : World α) (pos : Nat) (tick : Tick) (sire : Sire α FrameOp)
    (losers : List (Sire α FrameOp)) : (w.settled pos tick sire losers).triggerTags = w.triggerTags := by
  have haway : (losers.foldl credit (w.clearIntake pos)).triggerTags = w.triggerTags := by
    refine List.foldlRecOn losers credit (motive := fun v => v.triggerTags = w.triggerTags) ?_ ?_
    · rfl
    · exact fun v hv sire _ => hv
  exact haway

/-- The levels at which the next offspring of a tile will start afresh. -/
def renewed (w : World α) (pos : Nat) (level : Nat) : Bool :=
  match (w.tile pos).intake with
  | [] => false
  | sire :: _ => sire.record.renews level

/-- The tile `p` is the parent of the next offspring of `q`, and is about to take one itself. -/
def fosters (w : World α) (p q : Nat) : Bool :=
  match (w.tile p).intake, (w.tile q).intake with
  | _ :: _, sire :: _ => sire.record.sourcePos == p
  | _, _ => false

/-- What becomes of the tile `p` in the worlds `u` and `v`: in `u` it takes its offspring before `q` does, in `v`
after that. -/
structure Precedes (w : World α) (p q : Nat) (u v : World α) : Prop where
  tile : v.tile p = { u.tile p with channel := (v.tile p).channel, family := (v.tile p).family }
  channel : (u.tile p).channel.AgreesBut (w.renewed p) (v.tile p).channel
  family : (u.tile p).family =
    if w.fosters p q then (v.tile p).family.addChild q else (v.tile p).family
  forgotten : w.fosters p q = true → (v.tile p).family.hasChild q = false

/-- The worlds that two settlements lead to, in `u` that of `p` first, in `v` that of `q`. -/
structure Reordered (w : World α) (p q : Nat) (u v : World α) : Prop where
  config : v.config = u.config
  grid : v.grid = u.grid
  triggerTags : v.triggerTags = u.triggerTags
  size : v.size = u.size
  rng : v.rng = u.rng
  elsewhere : ∀ r < w.size, r ≠ p → r ≠ q → v.tile r = u.tile r
  first : w.Precedes p q u v
  second : w.Precedes q p v u

end Settled

section Exact

variable {w : World Rat} {p q r : Nat} {a b : Sire Rat FrameOp} {losers losers' : List (Sire Rat FrameOp)}
  {tick : Tick}

/-- A tile that takes no offspring cannot tell the order. -/
theorem tile_reordered_other (ha : a.record.sourcePos < w.size) (hb : b.record.sourcePos < w.size)
    (hr : r < w.size) (hrp : r ≠ p) (hrq : r ≠ q) :
    ((w.settled q tick b losers').settled p tick a losers).tile r =
      ((w.settled p tick a losers).settled q tick b losers').tile r := by
  rw [tile_settled_other (by rwa [size_settled]) (by rwa [size_settled]) hrp, tile_settled_other hr hb hrq,
    tile_settled_other (by rwa [size_settled]) (by rwa [size_settled]) hrq, tile_settled_other hr ha hrp]
  simp only [Stockpile.reclaim_comm _ (losers'.filter _)]
  by_cases hra : r = a.record.sourcePos
  · by_cases hrb : r = b.record.sourcePos
    · simp only [if_pos hra, if_pos hrb, Family.addChild_comm]
    · simp only [if_pos hra, if_neg hrb]
  · simp only [if_neg hra]

/-- What a tile is like that takes an offspring before another tile does, and after it. -/
theorem precedes_settled (hp : p < w.size) (hpq : p ≠ q) (ha : a.record.sourcePos < w.size)
    (hb : b.record.sourcePos < w.size) (hin : (w.tile p).intake = a :: losers)
    (hin' : (w.tile q).intake = b :: losers') :
    w.Precedes p q ((w.settled p tick a losers).settled q tick b losers')
      ((w.settled q tick b losers').settled p tick a losers) := by
  have hconfig := (w.settled_ground q tick b losers').1
  have hrenewed : w.renewed p = a.record.renews := by
    funext level
    rw [renewed, hin]
  have hfosters : w.fosters p q = (b.record.sourcePos == p) := by
    rw [fosters, hin, hin']
  have hbefore : ((w.settled p tick a losers).settled q tick b losers').tile p = _ :=
    tile_settled_other (by rwa [size_settled]) (by rwa [size_settled]) hpq tick losers'
  rw [tile_settled_same hp ha] at hbefore
  have hafter : ((w.settled q tick b losers').settled p tick a losers).tile p = _ :=
    tile_settled_same (by rwa [size_settled]) (by rwa [size_settled]) tick losers
  rw [hconfig, tile_settled_other hp hb hpq] at hafter
  generalize (w.settled p tick a losers).settled q tick b losers' = u at hbefore ⊢
  generalize (w.settled q tick b losers').settled p tick a losers = v at hafter ⊢
  constructor
  · have hstockpile : (v.tile p).stockpile = (u.tile p).stockpile := by
      rw [hbefore, hafter]
      refine Eq.trans ?_ (Stockpile.reclaim_contribute _ _ _ _).symm
      exact congrArg (Stockpile.contribute · _ _) (Stockpile.reclaim_comm _ _ _)
    have hrest : v.tile p = { u.tile p with
        stockpile := (v.tile p).stockpile
        channel := (v.tile p).channel
        family := (v.tile p).family } := by
      rw [hbefore, hafter]
      rfl
    rw [hstockpile] at hrest
    exact hrest
  · rw [hbefore, hafter, hrenewed]
    exact Channel.agreesBut_ofSire _ _ _ _
  · rw [hbefore, hafter, hfosters]
    simp only [beq_iff_eq, eq_comm (a := p)]
    rfl
  · intro _
    rw [hafter]
    change Family.hasChild (if p = a.record.sourcePos then _ else _) q = false
    split
    · exact (Positions.contains_insert _ p q).trans (by simp [hpq.symm, Family.settled])
    · rfl

/-- Identifiers are drawn for the two offspring, for one after the other, and the generator goes on alike. -/
theorem rng_reordered (w : World Rat) (p q : Nat) (a b : Sire Rat FrameOp) (losers losers' : List (Sire Rat FrameOp))
    (tick : Tick) :
    ((w.settled q tick b losers').settled p tick a losers).rng =
      ((w.settled p tick a losers).settled q tick b losers').rng := by
  have hdraw (m n : Nat) : ((w.rng.draw m).2.draw n).2 = (w.rng.draw (m + n)).2 := by
    rw [Generator.draw_add]
  obtain ⟨hconfig, -, -, hrng⟩ := w.settled_ground p tick a losers
  obtain ⟨hconfig', -, -, hrng'⟩ := w.settled_ground q tick b losers'
  rw [(settled_ground _ p tick a losers).2.2.2, hconfig', hrng', (settled_ground _ q tick b losers').2.2.2,
    hconfig, hrng, hdraw, hdraw, Nat.add_comm]

/-- Two settlements in either order. -/
theorem reordered_settled (hp : p < w.size) (hq : q < w.size) (hpq : p ≠ q)
    (ha : a.record.sourcePos < w.size) (hb : b.record.sourcePos < w.size)
    (hin : (w.tile p).intake = a :: losers) (hin' : (w.tile q).intake = b :: losers') :
    w.Reordered p q ((w.settled p tick a losers).settled q tick b losers')
      ((w.settled q tick b losers').settled p tick a losers) := by
  obtain ⟨hconfig, hgrid, -⟩ := w.settled_ground p tick a losers
  obtain ⟨hconfig', hgrid', -⟩ := w.settled_ground q tick b losers'
  obtain ⟨hc, hg, -⟩ := settled_ground (w.settled p tick a losers) q tick b losers'
  obtain ⟨hc', hg', -⟩ := settled_ground (w.settled q tick b losers') p tick a losers
  exact {
    config := (hc'.trans hconfig').trans (hc.trans hconfig).symm
    grid := (hg'.trans hgrid').trans (hg.trans hgrid).symm
    triggerTags := by simp only [triggerTags_settled]
    size := by simp only [size_settled]
    rng := rng_reordered w p q a b losers losers' tick
    elsewhere := fun r hr hrp hrq => tile_reordered_other ha hb hr hrp hrq
    first := precedes_settled hp hpq ha hb hin hin'
    second := precedes_settled hq hpq.symm hb ha hin' hin }

theorem fosters_of_left (h : (w.tile p).intake = []) : w.fosters p q = false := by
  rw [fosters, h]

theorem fosters_of_right (h : (w.tile q).intake = []) : w.fosters p q = false := by
  rw [fosters, h]
  cases (w.tile p).intake with
  | nil => rfl
  | cons a losers => rfl

/-- Where one of the tiles takes no offspring the order makes no difference. -/
theorem Reordered.refl (h : (w.tile p).intake = [] ∨ (w.tile q).intake = []) (u : World Rat) :
    w.Reordered p q u u := by
  have hfosters : w.fosters p q = false ∧ w.fosters q p = false := by
    rcases h with h | h
    · exact ⟨fosters_of_left h, fosters_of_right h⟩
    · exact ⟨fosters_of_right h, fosters_of_left h⟩
  have hprecedes {p q : Nat} (h : w.fosters p q = false) : w.Precedes p q u u :=
    ⟨rfl, .refl _ _, by rw [h]; rfl, by rw [h]; exact nofun⟩
  exact ⟨rfl, rfl, rfl, rfl, rfl, fun _ _ _ _ => rfl, hprecedes hfosters.1, hprecedes hfosters.2⟩

/-- A settlement leaves the intakes of other tiles as they are. -/
theorem intake_settled (w : World Rat) (tick : Tick) (sire : Sire Rat FrameOp) (losers : List (Sire Rat FrameOp))
    (h : r ≠ p) : ((w.settled p tick sire losers).tile r).intake = (w.tile r).intake := by
  rw [settled, intake_install, intake_credits, intake_clearIntake, if_neg h]

/-- A settlement goes through, and leaves the intakes of other tiles as they are. -/
theorem exists_settleSire (hw : w.Sound) (r : Nat) (tick : Tick) :
    ∃ a v, w.settleSire r tick = .ok (a, v) ∧ ∀ s, s ≠ r → (v.tile s).intake = (w.tile s).intake := by
  cases hin : (w.tile r).intake with
  | nil => exact ⟨none, w, settleSire_nil hin tick, fun s _ => rfl⟩
  | cons a losers =>
    refine ⟨_, _, settleSire_eq hin (fun s hs => hw.sources r s (hin ▸ hs)) tick, fun s hs => ?_⟩
    exact intake_settled w tick a losers hs

/-- The order of two settlements. On two tiles of a world that can be reached, whoever lives there, both orders go
through and return the same programs. The worlds they lead to agree in the settings, the grid, the size and the
generator, in all other tiles, and in all that is kept for the two tiles but families and drawn identifiers. The
family of a tile is the same as well, unless the tile is the parent of the other's offspring and takes one itself:
then it has the other among its children if it was the first of the two, and has not if it was the second. -/
theorem settlements_reordered {config : Config Rat} (hw : Run config w) (hp : p < w.size) (hq : q < w.size)
    (hpq : p ≠ q) (tick : Tick) : ∃ a b u₁ u v₁ v,
      w.settleSire p tick = .ok (a, u₁) ∧ u₁.settleSire q tick = .ok (b, u) ∧
      w.settleSire q tick = .ok (b, v₁) ∧ v₁.settleSire p tick = .ok (a, v) ∧ w.Reordered p q u v := by
  cases hin : (w.tile p).intake with
  | nil =>
    obtain ⟨b, u, hu, hkeeps⟩ := exists_settleSire hw.sound q tick
    exact ⟨none, b, w, u, u, u, settleSire_nil hin tick, hu, hu,
      settleSire_nil ((hkeeps p hpq).trans hin) tick, .refl (.inl hin) u⟩
  | cons a losers =>
    cases hin' : (w.tile q).intake with
    | nil =>
      obtain ⟨a, u, hu, hkeeps⟩ := exists_settleSire hw.sound p tick
      exact ⟨a, none, u, u, w, u, hu, settleSire_nil ((hkeeps q hpq.symm).trans hin') tick,
        settleSire_nil hin' tick, hu, .refl (.inr hin') u⟩
    | cons b losers' =>
      have hsources (r : Nat) (s : Sire Rat FrameOp) (hs : s ∈ (w.tile r).intake) : s.record.sourcePos < w.size :=
        hw.sound.sources r s hs
      have ha := hsources p a (by rw [hin]; exact List.mem_cons_self)
      have hb := hsources q b (by rw [hin']; exact List.mem_cons_self)
      have hinLast := (intake_settled w tick b losers' hpq).trans hin
      have hinLast' := (intake_settled w tick a losers hpq.symm).trans hin'
      refine ⟨_, _, _, _, _, _, settleSire_eq hin (fun s hs => hsources p s (hin ▸ hs)) tick,
        settleSire_eq hinLast' (fun s hs => ?_) tick, settleSire_eq hin' (fun s hs => hsources q s (hin' ▸ hs)) tick,
        settleSire_eq hinLast (fun s hs => ?_) tick, reordered_settled hp hq hpq ha hb hin hin'⟩
      · rw [size_settled]
        exact hsources q s (hin' ▸ hs)
      · rw [size_settled]
        exact hsources p s (hin ▸ hs)

end Exact

def bothOrders (w : World Rat) (p q : Nat) (tick : Tick) : Except Fault (World Rat × World Rat) := do
  let first ← w.settleSire p tick
  let u ← first.2.settleSire q tick
  let second ← w.settleSire q tick
  let v ← second.2.settleSire p tick
  pure (u.2, v.2)

theorem bothOrders_eq_ok {w u v : World Rat} {p q : Nat} {tick : Tick} :
    w.bothOrders p q tick = .ok (u, v) ↔ ∃ a b b' a' u₁ v₁,
      w.settleSire p tick = .ok (a, u₁) ∧ u₁.settleSire q tick = .ok (b, u) ∧
      w.settleSire q tick = .ok (b', v₁) ∧ v₁.settleSire p tick = .ok (a', v) := by
  constructor
  · intro h
    obtain ⟨⟨a, u₁⟩, hu₁, h⟩ := bind_eq_ok h
    obtain ⟨⟨b, u⟩, hu, h⟩ := bind_eq_ok h
    obtain ⟨⟨b', v₁⟩, hv₁, h⟩ := bind_eq_ok h
    obtain ⟨⟨a', v⟩, hv, h⟩ := bind_eq_ok h
    cases h
    exact ⟨a, b, b', a', u₁, v₁, hu₁, hu, hv₁, hv⟩
  · rintro ⟨a, b, b', a', u₁, v₁, hu₁, hu, hv₁, hv⟩
    simp only [bothOrders, bind, Except.bind, hu₁, hu, hv₁, hv]
    rfl

def trio : Config Rat :=
  { Config.standard with gridWidth := 3, gridHeight := 1, repThresh := 0 }

def twins : List (Deed Rat) := [.found 0 .zero, .reproduce 0 .right 0 1 .none, .reproduce 0 .left 0 1 .none]

/-- The twins get different identifiers in the two worlds, and the same families. -/
theorem settlements_reordered_twins : ∃ w a b u₁ u v₁ v, Run trio w ∧
    w.settleSire 1 .zero = .ok (a, u₁) ∧ u₁.settleSire 2 .zero = .ok (b, u) ∧
    w.settleSire 2 .zero = .ok (b, v₁) ∧ v₁.settleSire 1 .zero = .ok (a, v) ∧ w.Reordered 1 2 u v ∧
    (u.tile 1).live = true ∧ (u.tile 1).channel ≠ (v.tile 1).channel ∧
    (u.tile 1).family = (v.tile 1).family ∧ (v.tile 2).family = (u.tile 2).family := by
  have hrun : leadsTo trio twins (fun _ w =>
      decide (1 < w.size ∧ 2 < w.size ∧ w.fosters 1 2 = false ∧ w.fosters 2 1 = false) &&
        yields (w.bothOrders 1 2 .zero) fun x =>
          (x.1.tile 1).live && decide ((x.1.tile 1).channel ≠ (x.2.tile 1).channel)) = true := by
    decide +kernel
  obtain ⟨w₀, ids, w, h₀, hw, ht⟩ := exists_history hrun
  rw [Bool.and_eq_true, decide_eq_true_eq] at ht
  obtain ⟨⟨hp, hq, hpq, hqp⟩, hmore⟩ := ht
  have hreached := Run.of_history h₀ hw
  obtain ⟨a, b, u₁, u, v₁, v, hu₁, hu, hv₁, hv, h⟩ := settlements_reordered hreached hp hq (by decide) .zero
  have hboth : w.bothOrders 1 2 .zero = .ok (u, v) :=
    bothOrders_eq_ok.2 ⟨a, b, b, a, u₁, v₁, hu₁, hu, hv₁, hv⟩
  obtain ⟨x, hx, htest⟩ := of_yields hmore
  obtain rfl := Except.ok.inj (hboth.symm.trans hx)
  rw [Bool.and_eq_true, decide_eq_true_eq] at htest
  have hfirst := h.first.family
  have hsecond := h.second.family
  rw [hpq] at hfirst
  rw [hqp] at hsecond
  exact ⟨w, a, b, u₁, u, v₁, v, hreached, hu₁, hu, hv₁, hv, h, htest.1, htest.2, hfirst, hsecond⟩

/-- Two founders reproduce to each other's tile and are gone. -/
def exchanged : List (Deed Rat) :=
  [.found 0 .zero, .found 1 .zero, .reproduce 0 .right 0 0 .none, .reproduce 1 .left 0 0 .none,
    .vacate 0, .vacate 1]

/-- A tile that takes its offspring first has the other's among its children, and otherwise it has not. -/
theorem settlements_exchanged : ∃ w a b b' a' u₁ u v₁ v, Run pair w ∧
    (w.tile 0).live = false ∧ (w.tile 1).live = false ∧
    w.settleSire 0 .zero = .ok (a, u₁) ∧ u₁.settleSire 1 .zero = .ok (b, u) ∧
    w.settleSire 1 .zero = .ok (b', v₁) ∧ v₁.settleSire 0 .zero = .ok (a', v) ∧
    (u.tile 0).family.hasChild 1 = true ∧ (v.tile 0).family.hasChild 1 = false ∧
    (u.tile 1).family.hasChild 0 = false ∧ (v.tile 1).family.hasChild 0 = true := by
  have hrun : leadsTo pair exchanged (fun _ w => decide ((w.tile 0).live = false ∧ (w.tile 1).live = false) &&
      yields (w.bothOrders 0 1 .zero) fun x => decide (
        (x.1.tile 0).family.hasChild 1 = true ∧ (x.2.tile 0).family.hasChild 1 = false ∧
          (x.1.tile 1).family.hasChild 0 = false ∧ (x.2.tile 1).family.hasChild 0 = true)) = true := by
    decide +kernel
  obtain ⟨w₀, ids, w, h₀, hw, ht⟩ := exists_history hrun
  rw [Bool.and_eq_true, decide_eq_true_eq] at ht
  obtain ⟨⟨hp, hq⟩, hmore⟩ := ht
  obtain ⟨⟨u, v⟩, hboth, htest⟩ := of_yields hmore
  obtain ⟨a, b, b', a', u₁, v₁, hu₁, hu, hv₁, hv⟩ := bothOrders_eq_ok.1 hboth
  exact ⟨w, a, b, b', a', u₁, u, v₁, v, Run.of_history h₀ hw, hp, hq, hu₁, hu, hv₁, hv, of_decide_eq_true htest⟩

end World

end Vivarium
