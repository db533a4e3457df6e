import Mathlib.Algebra.BigOperators.Group.List.Basic
import Mathlib.Tactic.Ring
import Vivarium.Proofs.Stockpile
import Vivarium.Proofs.World.Sound
/-!
# The ledger

Resource lies in stockpiles or travels with sires. Over the rationals no step makes or destroys
any, but for the growth that comes from outside.
-/
namespace Vivarium

def Tile.worth (t : Tile Rat) : Rat := t.stockpile.resource + t.pendingEndowment

def World.worth (w : World Rat) : Rat := w.totalResource + w.pendingEndowment

theorem Tile.pendingEndowment_eq (t : Tile Rat) :
    t.pendingEndowment = (t.intake.map (·.endowment)).sum := by
  rw [List.sum_eq_foldl, List.foldl_map]
  rfl

namespace World

variable {w w' : World Rat} {pos : Nat}

theorem totalResource_eq (w : World Rat) :
    w.totalResource = (w.tiles.toList.map (·.stockpile.resource)).sum := by
  rw [List.sum_eq_foldl, List.foldl_map, totalResource, ← Array.foldl_toList]

theorem pendingEndowment_eq (w : World Rat) :
    w.pendingEndowment = (w.tiles.toList.map (·.pendingEndowment)).sum := by
  rw [List.sum_eq_foldl, List.foldl_map, pendingEndowment, ← Array.foldl_toList]

theorem worth_eq (w : World Rat) : w.worth = (w.tiles.toList.map Tile.worth).sum := by
  rw [worth, totalResource_eq, pendingEndowment_eq, ← List.sum_map_add]
  rfl

theorem sum_map_modify {β : Type} (g : β → Rat) (f : β → β) {d : Rat} (l : List β) (i : Nat)
    (hi : i < l.length) (hd : g (f l[i]) = g l[i] + d) :
    ((l.modify i f).map g).sum = (l.map g).sum + d := by
  induction l generalizing i with
  | nil => cases hi
  | cons x rest ih =>
    cases i with
    | zero =>
      have hx : g (f x) = g x + d := hd
      simp only [List.modify_zero_cons, List.map_cons, List.sum_cons, hx]
      ring
    | succ i =>
      have hrest := ih i (Nat.lt_of_succ_lt_succ hi) hd
      simp only [List.modify_succ_cons, List.map_cons, List.sum_cons, hrest]
      ring

/-- A change of one tile changes the worth of the world by what it changes that of the tile. -/
theorem worth_modify (hp : pos < w.size) {change : Tile Rat → Tile Rat} {d : Rat}
    (hd : (change (w.tile pos)).worth = (w.tile pos).worth + d) :
    (w.modify pos change).worth = w.worth + d := by
  have hp' : pos < w.tiles.size := hp
  rw [worth_eq, worth_eq, modify, Array.toList_modify]
  refine sum_map_modify Tile.worth change _ pos (by simpa using hp') ?_
  simpa [tile, hp'] using hd

theorem worth_modify_of_keep (w : World Rat) (pos : Nat) {change : Tile Rat → Tile Rat}
    (h : ∀ t, (change t).worth = t.worth) : (w.modify pos change).worth = w.worth := by
  by_cases hp : pos < w.size
  · rw [worth_modify hp (d := 0) (by rw [h, add_zero]), add_zero]
  · have hp' : w.tiles.toList.length ≤ pos := by simpa [size] using hp
    rw [worth_eq, worth_eq, modify, Array.toList_modify, List.modify_eq_self hp']

/-! ## Steps -/

theorem worth_contribute (hp : pos < w.size) {amount : Rat} (ha : 0 ≤ amount) (d : Direction) :
    (w.modifyStockpile pos (·.contribute amount d)).worth = w.worth + amount := by
  apply worth_modify hp
  simp only [Tile.worth, Stockpile.resource_contribute _ ha]
  change _ + (w.tile pos).pendingEndowment = _
  ring

/-- Sires that come back bring what they carry. -/
theorem worth_credits {sires : List (Sire Rat FrameOp)}
    (h : ∀ s ∈ sires, s.record.sourcePos < w.size ∧ 0 ≤ s.endowment) :
    (sires.foldl credit w).worth = w.worth + (sires.map (·.endowment)).sum := by
  induction sires generalizing w with
  | nil => simp
  | cons s rest ih =>
    obtain ⟨hp, he⟩ := h s List.mem_cons_self
    have hrest := ih (w := w.credit s) fun s' hs' => by
      rw [size_credit]
      exact h s' (List.mem_cons_of_mem s hs')
    rw [List.foldl_cons, hrest, credit, worth_contribute hp he, List.map_cons, List.sum_cons]
    ring

theorem worth_clearIntake (hp : pos < w.size) :
    (w.clearIntake pos).worth = w.worth + -((w.tile pos).intake.map (·.endowment)).sum := by
  apply worth_modify hp
  simp only [Tile.worth, Tile.pendingEndowment_eq, List.map_nil, List.sum_nil]
  ring

theorem worth_receive {target : Nat} (ht : target < w.size) (sire : Sire Rat FrameOp) :
    (w.receive target sire).worth = w.worth + sire.endowment := by
  apply worth_modify ht
  simp only [Tile.worth, Tile.pendingEndowment_eq, List.map_append, List.sum_append, List.map_cons,
    List.map_nil, List.sum_cons, List.sum_nil]
  ring

/-- A debit. -/
theorem worth_request (hp : pos < w.size) (amount : Rat) :
    (w.modifyStockpile pos fun _ => ((w.tile pos).stockpile.request amount).2).worth =
      w.worth + -((w.tile pos).stockpile.request amount).1 := by
  apply worth_modify hp
  simp only [Tile.worth, Stockpile.resource_request]
  change _ + (w.tile pos).pendingEndowment = _
  ring

/-- What is debited here is credited to a neighbour, which may be the same tile. -/
theorem worth_sendResource (hw : w.Sound) (hp : pos < w.size) (dir : Direction) (fraction : Rat) :
    (w.sendResource pos dir fraction).worth = w.worth := by
  by_cases hl : (w.tile (w.neighbor pos dir)).live
  · have ht := hw.neighbor_lt hp dir
    simp only [sendResource, hl, if_true]
    rw [worth_contribute, Stockpile.requestFraction, worth_request hp]
    · ring
    · rwa [modifyStockpile, size_modify]
    · exact Stockpile.request_nonneg _ _
  · simp only [sendResource, hl]
    rfl

/-- The threshold is debited from the parent and travels with the sire. -/
theorem worth_tryReproduce (hw : w.Sound) (hp : pos < w.size) (facing : Direction) (relative : Rat)
    (level : Nat) (program : Program FrameOp) :
    (w.tryReproduce pos facing relative level program).2.worth = w.worth := by
  unfold tryReproduce
  cases w.reproductionLevel? pos facing level with
  | none => rfl
  | some used =>
    have ht := hw.neighbor_lt hp (facing.turn relative)
    change ((w.modifyStockpile pos fun _ =>
      ((w.tile pos).stockpile.request w.config.repThresh).2).receive _ _).worth = w.worth
    rw [worth_receive, worth_request hp]
    · ring
    · rwa [modifyStockpile, size_modify]

theorem worth_install (hp : pos < w.size) (tick : Tick) {sire : Sire Rat FrameOp}
    (he : 0 ≤ sire.endowment) :
    (w.install pos tick sire).worth = w.worth + sire.endowment := by
  have settled : ∀ v : World Rat, v.worth = w.worth → v.size = w.size →
      (v.modify pos fun t => Tile.occupy
        { t with
          stockpile := t.stockpile.contribute sire.endowment
            (Direction.ofNat sire.record.dir).opposite }).worth = w.worth + sire.endowment := by
    intro v hv hs
    rw [← hv]
    apply worth_modify (hs.symm ▸ hp)
    simp only [Tile.worth, Tile.occupy, Tile.tidy, Stockpile.resource_contribute _ he]
    change _ + (v.tile pos).pendingEndowment = _
    ring
  apply settled
  · rw [modifyFamily, worth_modify_of_keep]
    · exact worth_modify_of_keep _ _ fun _ => rfl
    · exact fun _ => rfl
  · simp only [modifyFamily, size_modify]
    rfl

/-- A step changes the worth of the world by the growth it brings. -/
theorem Step.worth {news : List ChannelId} {gains : List Rat} (h : w.Step news gains w')
    (hw : w.Sound) (he : ∀ q, ∀ s ∈ (w.tile q).intake, 0 ≤ s.endowment) :
    w'.worth = w.worth + gains.sum := by
  cases h with
  | quiet pos change hc =>
    rw [List.sum_nil, add_zero]
    apply w.worth_modify_of_keep
    intro t
    rw [Tile.worth, Tile.worth, Tile.pendingEndowment_eq, Tile.pendingEndowment_eq,
      (hc t).resource, (hc t).intake]
  | forget _ =>
    rw [List.sum_nil, add_zero]
    exact w.worth_modify_of_keep _ fun _ => rfl
  | send dir fraction hp => rw [worth_sendResource hw hp, List.sum_nil, add_zero]
  | reproduce facing relative level program hp =>
    rw [worth_tryReproduce hw hp, List.sum_nil, add_zero]
  | @refund pos n w' hp hr =>
    obtain rfl := of_refundIntake_eq_ok hr
    rw [worth_credits, worth_clearIntake hp, List.sum_nil]
    · ring
    · intro s hs
      rw [clearIntake, size_modify]
      exact ⟨hw.sources pos s hs, he pos s hs⟩
  | found tick hp =>
    rw [List.sum_nil, add_zero]
    exact worth_modify_of_keep _ _ fun _ => rfl
  | @settle pos tick sire losers p w' hp hin hs =>
    obtain ⟨-, rfl⟩ := of_settleSire_eq_ok hin hs
    have hall : ∀ s ∈ sire :: losers, s.record.sourcePos < w.size ∧ 0 ≤ s.endowment := by
      intro s hm
      rw [← hin] at hm
      exact ⟨hw.sources pos s hm, he pos s hm⟩
    rw [worth_install, worth_credits, worth_clearIntake hp, hin, List.map_cons, List.sum_cons,
      List.sum_nil]
    · ring
    · intro s hm
      rw [clearIntake, size_modify]
      exact hall s (List.mem_cons_of_mem sire hm)
    · rwa [(stays_turnedAway w pos losers).size]
    · exact (hall sire List.mem_cons_self).2
  | grow amount hp =>
    rw [List.sum_singleton]
    apply worth_modify hp
    simp only [Tile.worth, Stockpile.resource_grow]
    change _ + (w.tile _).pendingEndowment = _
    ring

/-! ## Histories -/

/-- A sound world in which no sire travels with a debt. -/
structure Solvent (w : World Rat) : Prop where
  sound : w.Sound
  endowment_nonneg : ∀ q, ∀ s ∈ (w.tile q).intake, 0 ≤ s.endowment

theorem solvent_new {config : Config Rat} (h : World.new config = .ok w) : w.Solvent := by
  constructor
  · exact sound_new h
  · intro q s hs
    rw [tile_new h] at hs
    cases hs

/-- There is nothing in a new world. -/
theorem worth_new {config : Config Rat} (h : World.new config = .ok w) : w.worth = 0 := by
  have hbarren : (Tile.barren config.nlev config.levels : Tile Rat).worth = 0 := by
    change (0 : Rat) + 0 = 0
    exact add_zero 0
  rw [worth_eq, (of_new_eq_ok h).2.2.2, Array.toList_replicate, List.map_replicate, hbarren]
  simp

/-- No step sends a sire off with a debt. -/
theorem Solvent.step {news : List ChannelId} {gains : List Rat} (hw : w.Solvent)
    (h : w.Step news gains w') : w'.Solvent := by
  constructor
  · exact hw.sound.step h
  · intro q s hs
    rcases h.mem_intake hs with hs | ⟨-, he⟩
    · exact hw.endowment_nonneg q s hs
    · rw [he]
      exact Stockpile.available_nonneg _ _

/-- The worth is what there was at first, and all growth since. -/
theorem Kept.worth (w₀ : World Rat) :
    Kept fun _ gains w => w.Solvent ∧ w.worth = w₀.worth + gains.sum := by
  intro _ gains w _ more w' h hs
  constructor
  · exact h.1.step hs
  · rw [hs.worth h.1.sound h.1.endowment_nonneg, h.2, List.sum_append, add_assoc]

/-- Every history leaves a solvent world solvent, and worth what came in more. -/
theorem History.worth {w₀ : World Rat} {deeds : List (Deed Rat)} {ids : List ChannelId}
    (hw : History w₀ deeds ids w) (h₀ : w₀.Solvent) :
    w.Solvent ∧ w.worth = w₀.worth + (deeds.flatMap (·.growth)).sum :=
  (Kept.worth w₀).history hw ⟨h₀, by rw [List.sum_nil, add_zero]⟩

end World

end Vivarium
