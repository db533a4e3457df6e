import Vivarium.Proofs.Lineage.Groups
import Vivarium.Proofs.World.Sound
import Vivarium.Scalar.Exact
/-!
# Kinship

Every step of a world is one of the six steps of its lineages, so that what those keep holds
throughout every history.
-/
namespace Vivarium

variable {α : Type} [Scalar α] {w w' : World α}

def Tile.kin (t : Tile α) : Kin := ⟨t.channel.ids, t.family.prevChan, t.intake.map (·.record)⟩

def World.kin (w : World α) (pos : Nat) : Kin := (w.tile pos).kin

namespace World

theorem kin_modify_of_kin (w : World α) (pos : Nat) {change : Tile α → Tile α}
    (h : ∀ t, (change t).kin = t.kin) : (w.modify pos change).kin = w.kin := by
  funext q
  exact tile_modify_congr Tile.kin w pos q h

/-- A change of one tile is a change of what it carries. -/
theorem kin_modify (w : World α) {pos : Nat} (hp : pos < w.size) (change : Tile α → Tile α) :
    (w.modify pos change).kin = Function.update w.kin pos (change (w.tile pos)).kin := by
  funext q
  rw [Function.update_apply, kin, tile_modify]
  by_cases hq : q = pos
  · rw [if_pos ⟨hq, hp⟩, if_pos hq, hq]
  · rw [if_neg fun h => hq h.1, if_neg hq]
    rfl

@[simp] theorem kin_modifyStockpile (w : World α) (pos : Nat) (f : Stockpile α → Stockpile α) :
    (w.modifyStockpile pos f).kin = w.kin :=
  w.kin_modify_of_kin pos fun _ => rfl

@[simp] theorem kin_credits (w : World α) (sires : List (Sire α FrameOp)) :
    (sires.foldl credit w).kin = w.kin :=
  List.foldlRecOn sires credit (motive := fun v => v.kin = w.kin) rfl
    fun v hv _ _ => Eq.trans (v.kin_modifyStockpile _ _) hv

theorem kin_clearIntake (w : World α) {pos : Nat} (hp : pos < w.size) :
    (w.clearIntake pos).kin = Function.update w.kin pos { w.kin pos with sires := [] } :=
  w.kin_modify hp _

theorem kin_sendResource (w : World α) (pos : Nat) (dir : Direction) (fraction : α) :
    (w.sendResource pos dir fraction).kin = w.kin := by
  by_cases hl : (w.tile (w.neighbor pos dir)).live
  · simp only [sendResource, hl, if_true, kin_modifyStockpile]
  · simp only [sendResource, hl]
    rfl

theorem kin_receive (w : World α) {target : Nat} (ht : target < w.size) (sire : Sire α FrameOp) :
    (w.receive target sire).kin = Function.update w.kin target
      { w.kin target with sires := (w.kin target).sires ++ [sire.record] } := by
  rw [receive, kin_modify w ht]
  simp [kin, Tile.kin]

theorem kin_found (w : World α) {pos : Nat} (hp : pos < w.size) (tick : Tick) :
    (w.found pos tick).kin = Function.update w.kin pos
      { w.kin pos with ids := some (w.rng.draw w.config.levels.length).1, prev := none } :=
  kin_modify { w with rng := (Channel.founder w.config.levels w.rng).2 } hp _

theorem kin_install (w : World α) {pos : Nat} (hp : pos < w.size) (tick : Tick)
    (sire : Sire α FrameOp) : (w.install pos tick sire).kin = Function.update w.kin pos
      { w.kin pos with
        ids := (Channel.ofSire w.config.levels sire.record w.rng).1.ids
        prev := sire.record.prevChan } := by
  rw [install, kin_modify_of_kin, modifyFamily, kin_modify_of_kin]
  · exact kin_modify { w with rng := (Channel.ofSire w.config.levels sire.record w.rng).2 } hp _
  · exact fun _ => rfl
  · exact fun _ => rfl

/-- The record that a reproduction queues keeps what its parent carried. -/
theorem kin_tryReproduce (hw : w.Sound) {pos : Nat} (hp : pos < w.size)
    (facing : Direction) (relative : α) (level : Nat) (program : Program FrameOp) :
    Kin.Step w.config.nlev w.kin [] (w.tryReproduce pos facing relative level program).2.kin := by
  unfold tryReproduce
  cases hl : w.reproductionLevel? pos facing level with
  | none => exact .same
  | some used =>
    have ht : w.neighbor pos (facing.turn relative) <
        (w.modifyStockpile pos fun _ =>
          ((w.tile pos).stockpile.request w.config.repThresh).2).size := by
      rw [modifyStockpile, size_modify]
      exact hw.neighbor_lt hp _
    have hk := kin_receive _ ht ⟨w.record pos (facing.turn relative) used, program,
      ((w.tile pos).stockpile.request w.config.repThresh).1⟩
    rw [kin_modifyStockpile] at hk
    have hs : Kin.Step w.config.nlev w.kin [] _ :=
      .queue pos (w.neighbor pos (facing.turn relative))
        (w.record pos (facing.turn relative) used) rfl rfl
    rw [← hk] at hs
    exact hs

/-- The sire that settles is the first that waits; its record decides what its offspring is. -/
theorem kin_settled {pos : Nat} {tick : Tick} {sire : Sire α FrameOp}
    {losers : List (Sire α FrameOp)} (hn : w.config.levels.length = w.config.nlev)
    (hp : pos < w.size) (hin : (w.tile pos).intake = sire :: losers)
    (hlen : sire.record.ids = [] ∨ sire.record.ids.length = w.config.nlev) :
    Kin.Step w.config.nlev w.kin
      (w.rng.draw (sire.record.renewals w.config.levels.length)).1
      ((losers.foldl credit (w.clearIntake pos)).install pos tick sire).kin := by
  have hst := stays_turnedAway w pos losers
  obtain ⟨child, hchild, hb⟩ := Channel.begets_ofSire (hn.symm ▸ hlen) w.rng
  rw [kin_install _ (hst.size.symm ▸ hp), kin_credits, kin_clearIntake w hp, hst.config, hst.rng,
    hchild, Function.update_idem, Function.update_self]
  have hsires : (w.kin pos).sires = sire.record :: losers.map (·.record) := by
    simp only [kin, Tile.kin, hin, List.map_cons]
  refine .settle hsires (hn ▸ hb) ?_
  rw [Generator.length_draw, SireRecord.renewals_eq (hn.symm ▸ hlen), hn]

/-- A step of the world is a step of its lineages, as long as the records are complete. -/
theorem Step.kin {news : List ChannelId} {gains : List α} (h : w.Step news gains w')
    (hw : w.Sound)
    (hr : ∀ p, ∀ r ∈ (w.kin p).sires, r.ids = [] ∨ r.ids.length = w.config.nlev) :
    Kin.Step w.config.nlev w.kin news w'.kin := by
  cases h with
  | quiet pos change hc =>
    have hk : (w.modify pos change).kin = w.kin := w.kin_modify_of_kin pos fun t => by
      simp only [Tile.kin, (hc t).ids, (hc t).prevChan, (hc t).intake]
    rw [hk]
    exact .same
  | @forget pos hp =>
    rw [vacate, kin_modify w hp]
    exact .forget pos
  | send dir fraction _ =>
    rw [kin_sendResource]
    exact .same
  | reproduce facing relative level program hp =>
    exact kin_tryReproduce hw hp facing relative level program
  | @refund pos n w' hp hr =>
    obtain rfl := of_refundIntake_eq_ok hr
    rw [kin_credits, kin_clearIntake w hp]
    exact .dismiss pos
  | found tick hp =>
    rw [kin_found w hp tick]
    apply Kin.Step.found
    rw [Generator.length_draw, hw.levels_length]
  | @settle pos tick sire losers p w' hp hin hs =>
    obtain ⟨-, rfl⟩ := of_settleSire_eq_ok hin hs
    refine kin_settled hw.levels_length hp hin (hr pos sire.record ?_)
    simp only [World.kin, Tile.kin, hin, List.map_cons, List.mem_cons_self]
  | grow amount _ =>
    rw [kin_modifyStockpile]
    exact .same

/-! ## Groups in the world -/

/-- A sound world whose lineages are grouped, if every identifier drawn was a new one. -/
structure Lineal (nlev : Nat) (ids : List ChannelId) (w : World α) : Prop where
  sound : w.Sound
  nlev_eq : w.config.nlev = nlev
  grouped : ids.Nodup → Kin.Grouped nlev ids w.kin
  descended : ids.Nodup → Kin.Descended nlev ids w.kin

theorem lineal_new {config : Config α} (h : World.new config = .ok w) :
    w.Lineal config.nlev [] := by
  have hids (p : Nat) : (w.kin p).ids = none := by rw [kin, tile_new h]; rfl
  have hprev (p : Nat) : (w.kin p).prev = none := by rw [kin, tile_new h]; rfl
  have hsires (p : Nat) : (w.kin p).sires = [] := by rw [kin, tile_new h]; rfl
  have hheld {ids : List ChannelId} (hi : Kin.Holds w.kin ids) : False := by
    cases hi with
    | tile hi => simp [hids] at hi
    | sire hr => simp [hsires] at hr
  constructor
  · exact sound_new h
  · rw [(of_new_eq_ok h).2.1]
  · intro _
    exact ⟨fun hi => (hheld hi).elim, fun hi => (hheld hi).elim, fun hi => (hheld hi).elim⟩
  · intro _
    constructor
    · intro id hr
      cases hr with
      | tile hr => simp [hprev] at hr
      | sire hr => simp [hsires] at hr
    · exact fun hd => (hheld hd.holds).elim
    · exact fun hd => (hheld hd.holds).elim

/-- Steps keep a world lineal. -/
theorem Lineal.step {nlev : Nat} {ids news : List ChannelId} {gains : List α}
    (h : w.Lineal nlev ids) (hs : w.Step news gains w') : w'.Lineal nlev (ids ++ news) := by
  have hn : 0 < nlev := h.nlev_eq ▸ h.sound.nlev_pos
  have hkin (hf : (ids ++ news).Nodup) : Kin.Step nlev w.kin news w'.kin := by
    have hg := h.grouped (List.nodup_append.1 hf).1
    have hk := hs.kin h.sound fun p r hr => h.nlev_eq.symm ▸ hg.length (.sire hr)
    rwa [h.nlev_eq] at hk
  constructor
  · exact h.sound.step hs
  · rw [hs.ground.1, h.nlev_eq]
  · intro hf
    exact (h.grouped (List.nodup_append.1 hf).1).step (hkin hf) hf
  · intro hf
    have hpast := (List.nodup_append.1 hf).1
    exact (h.descended hpast).step (h.grouped hpast) hn (hkin hf) hf

theorem History.lineal {config : Config α} {w₀ : World α} {deeds : List (Deed α)}
    {ids : List ChannelId} (h₀ : World.new config = .ok w₀) (hw : History w₀ deeds ids w) :
    w.Lineal config.nlev ids :=
  Kept.history (I := fun ids _ w => w.Lineal config.nlev ids)
    (fun _ _ _ _ _ _ h hs => h.step hs) hw (lineal_new h₀)

end World

theorem sameChannel_iff {i j : Option ChannelId} :
    sameChannel i j = true ↔ ∃ id, i = some id ∧ j = some id := by
  cases i with
  | none => simp [sameChannel]
  | some i =>
    cases j with
    | none => simp [sameChannel]
    | some j =>
      simp only [sameChannel, beq_iff_eq, Option.some.injEq]
      constructor
      · intro h
        exact ⟨i, rfl, h.symm⟩
      · rintro ⟨id, rfl, rfl⟩
        rfl

theorem Channel.matchesAt_eq (c d : Channel) (level : Nat) :
    c.matchesAt d level = sameChannel (c.id? level) (d.id? level) := by
  unfold matchesAt sameChannel
  cases c.id? level with
  | none => rfl
  | some i => cases d.id? level <;> rfl

namespace World

/-- Lineages that share an identifier share the later ones as well, which exist. -/
theorem Lineal.sameChannel_above {nlev l l' : Nat} {drawn ids ids' : List ChannelId}
    (h : w.Lineal nlev drawn) (hf : drawn.Nodup) (hi : Kin.Holds w.kin ids)
    (hi' : Kin.Holds w.kin ids') (hl : l ≤ l') (hl' : l' < nlev)
    (hm : sameChannel ids[l]? ids'[l]? = true) : sameChannel ids[l']? ids'[l']? = true := by
  obtain ⟨id, hid, hid'⟩ := sameChannel_iff.1 hm
  have hdrop := (h.grouped hf).groups hi hi' hid hid'
  have hlen : ids.length = nlev := by
    rcases (h.grouped hf).length hi with rfl | hlen
    · simp at hid
    · exact hlen
  have heq : ids[l']? = ids'[l']? := by
    have hget := congrArg (·[l' - l]?) hdrop
    simpa only [List.getElem?_drop, Nat.add_sub_cancel' hl] using hget
  have hlt : l' < ids.length := by omega
  have hsome := List.getElem?_eq_getElem hlt
  exact sameChannel_iff.2 ⟨_, hsome, heq ▸ hsome⟩

theorem holds_of_id? {p l : Nat} {id : ChannelId} (h : (w.tile p).channel.id? l = some id) :
    ∃ ids, (w.tile p).channel.ids = some ids ∧ Kin.Holds w.kin ids ∧ ids[l]? = some id := by
  obtain ⟨ids, hids, hid⟩ := Option.bind_eq_some_iff.1 h
  exact ⟨ids, hids, .tile hids, hid⟩

theorem holds_record {q : Nat} {s : Sire α FrameOp} (hs : s ∈ (w.tile q).intake) :
    Kin.Holds w.kin s.record.ids :=
  .sire (List.mem_map_of_mem hs)

/-- Groups are nested. As long as every identifier drawn is a new one, two tiles that hold the same
identifier at a level hold the same ones at all levels above it; so do a tile and a waiting sire. -/
theorem groups_nested {config : Config α} {w₀ w : World α} {deeds : List (Deed α)}
    {ids : List ChannelId} (h₀ : World.new config = .ok w₀) (hw : History w₀ deeds ids w)
    (hfresh : ids.Nodup) (p : Nat) {l l' : Nat} (hl : l ≤ l') (hl' : l' < config.nlev) :
    (∀ q, (w.tile p).channel.matchesAt (w.tile q).channel l = true →
      (w.tile p).channel.matchesAt (w.tile q).channel l' = true) ∧
    ∀ q, ∀ s ∈ (w.tile q).intake,
      sameChannel ((w.tile p).channel.id? l) s.record.ids[l]? = true →
      sameChannel ((w.tile p).channel.id? l') s.record.ids[l']? = true := by
  have h := hw.lineal h₀
  constructor
  · intro q hm
    rw [Channel.matchesAt_eq] at hm ⊢
    obtain ⟨id, hp, hq⟩ := sameChannel_iff.1 hm
    obtain ⟨ids, hids, hi, hid⟩ := holds_of_id? hp
    obtain ⟨ids', hids', hi', hid'⟩ := holds_of_id? hq
    simp only [Channel.id?, hids, hids', Option.bind_some]
    exact h.sameChannel_above hfresh hi hi' hl hl' (sameChannel_iff.2 ⟨id, hid, hid'⟩)
  · intro q s hs hm
    obtain ⟨id, hp, hid'⟩ := sameChannel_iff.1 hm
    obtain ⟨ids, hids, hi, hid⟩ := holds_of_id? hp
    simp only [Channel.id?, hids, Option.bind_some]
    exact h.sameChannel_above hfresh hi (holds_record hs) hl hl'
      (sameChannel_iff.2 ⟨id, hid, hid'⟩)

def pair : Config Rat :=
  { Config.withLevels 3 100 with gridWidth := 2, gridHeight := 1, repThresh := 0 }

/-- A founder settles an offspring of the middle level beside it and sends another sire there. -/
def brood : List (Deed Rat) :=
  [.found 0 .zero, .reproduce 0 .right 0 1 .none, .settle 1 .zero, .reproduce 0 .right 0 2 .none]

/-- The offspring shares the middle level with the founder, and so does the waiting sire; hence both
share the top level. -/
theorem groups_nested_brood : ∃ w₀ ids w, World.new pair = .ok w₀ ∧ History w₀ brood ids w ∧
    ids.Nodup ∧ (w.tile 0).channel.matchesAt (w.tile 1).channel 2 = true ∧
    ∃ s ∈ (w.tile 1).intake,
      sameChannel ((w.tile 0).channel.id? 2) s.record.ids[2]? = true := by
  have hrun : leadsTo pair brood (fun ids w => decide ids.Nodup &&
      (w.tile 0).channel.matchesAt (w.tile 1).channel 1 && (w.tile 1).intake.any fun s =>
        sameChannel ((w.tile 0).channel.id? 1) s.record.ids[1]?) = true := by decide +kernel
  obtain ⟨w₀, ids, w, h₀, hw, ht⟩ := exists_history hrun
  simp only [Bool.and_eq_true, decide_eq_true_eq, List.any_eq_true] at ht
  obtain ⟨⟨hf, hm⟩, s, hi, hs⟩ := ht
  obtain ⟨htile, hsire⟩ := groups_nested h₀ hw hf 0 (show 1 ≤ 2 by omega) (by decide)
  exact ⟨w₀, ids, w, h₀, hw, hf, htile 1 hm, s, hi, hsire 1 s hi hs⟩

/-! ## Propagules -/

/-- Members of one propagule descend from the same propagule. -/
theorem Lineal.prevChan_eq {nlev p q : Nat} {drawn : List ChannelId} (h : w.Lineal nlev drawn)
    (hf : drawn.Nodup)
    (hm : (w.tile p).channel.matchesAt (w.tile q).channel (nlev - 1) = true) :
    (w.tile p).family.prevChan = (w.tile q).family.prevChan := by
  rw [Channel.matchesAt_eq] at hm
  obtain ⟨id, hp, hq⟩ := sameChannel_iff.1 hm
  obtain ⟨ids, hids, -, hid⟩ := holds_of_id? hp
  obtain ⟨ids', hids', -, hid'⟩ := holds_of_id? hq
  exact (h.descended hf).agree (.tile hids) (.tile hids') hid hid'

/-- No propagule descends from itself. -/
theorem Lineal.prevChan_ne {nlev p : Nat} {drawn : List ChannelId} (h : w.Lineal nlev drawn)
    (hf : drawn.Nodup) {id : ChannelId} (hid : (w.tile p).channel.id? (nlev - 1) = some id) :
    (w.tile p).family.prevChan ≠ some id := by
  obtain ⟨ids, hids, -, hid⟩ := holds_of_id? hid
  exact (h.descended hf).apart (.tile hids) hid

omit [Scalar α] in
theorem topChannel_eq (s : Sensor α) (hn : 0 < s.world.config.nlev) (t : Tile α) :
    s.topChannel t = t.channel.id? (s.world.config.nlev - 1) := by
  rw [Sensor.topChannel, if_neg (Nat.ne_of_gt hn)]

/-- No tile descends from the propagule of a tile that it shares its own with. -/
theorem Lineal.not_descends {nlev p q : Nat} {drawn : List ChannelId} (h : w.Lineal nlev drawn)
    (hf : drawn.Nodup)
    (hm : (w.tile p).channel.matchesAt (w.tile q).channel (nlev - 1) = true) :
    sameChannel (w.tile p).family.prevChan ((w.tile q).channel.id? (nlev - 1)) = false ∧
      sameChannel (w.tile q).family.prevChan ((w.tile p).channel.id? (nlev - 1)) = false := by
  rw [Channel.matchesAt_eq] at hm
  obtain ⟨id, hp, hq⟩ := sameChannel_iff.1 hm
  constructor
  · rw [← Bool.not_eq_true, hq, sameChannel_iff]
    rintro ⟨_, hprev, he⟩
    exact h.prevChan_ne hf hp (hprev.trans he.symm)
  · rw [← Bool.not_eq_true, hp, sameChannel_iff]
    rintro ⟨_, hprev, he⟩
    exact h.prevChan_ne hf hq (hprev.trans he.symm)

/-- The propagule that an occupant descends from is that of its whole propagule. As long as every
identifier drawn is a new one, tiles with the same top-level identifier descend from the same
propagule, and never from their own. So a mate at the top level is no child and no parent
propagule, and all members of a propagule agree on whether a neighbour carries their parent. -/
theorem propagule_ancestry {config : Config α} {w₀ w : World α} {deeds : List (Deed α)}
    {ids : List ChannelId} (h₀ : World.new config = .ok w₀) (hw : History w₀ deeds ids w)
    (hfresh : ids.Nodup) :
    (∀ p q, (w.tile p).channel.matchesAt (w.tile q).channel (config.nlev - 1) = true →
      (w.tile p).family.prevChan = (w.tile q).family.prevChan) ∧
    (∀ p id, (w.tile p).channel.id? (config.nlev - 1) = some id →
      (w.tile p).family.prevChan ≠ some id) ∧
    (∀ s : Sensor α, s.world = w → ∀ relative,
      s.isChannelMate (config.nlev - 1) relative = true →
        s.isPropaguleChild relative = false ∧ s.isPropaguleParent relative = false) ∧
    ∀ s s' : Sensor α, s.world = w → s'.world = w →
      s.here.channel.matchesAt s'.here.channel (config.nlev - 1) = true →
      ∀ r r', s.neighbor r = s'.neighbor r' → s.isPropaguleChild r = s'.isPropaguleChild r' := by
  have h := hw.lineal h₀
  have hn : 0 < w.config.nlev := h.sound.nlev_pos
  refine ⟨fun p q hm => h.prevChan_eq hfresh hm, fun p id hid => h.prevChan_ne hfresh hid, ?_, ?_⟩
  · rintro ⟨v, pos, facing⟩ rfl relative hm
    obtain ⟨hchild, hparent⟩ := h.not_descends hfresh hm
    rw [← h.nlev_eq] at hchild hparent
    constructor
    · rw [Sensor.isPropaguleChild, topChannel_eq _ hn]
      exact Bool.and_eq_false_iff.2 (.inr hchild)
    · rw [Sensor.isPropaguleParent, topChannel_eq _ hn]
      exact Bool.and_eq_false_iff.2 (.inr hparent)
  · rintro ⟨v, pos, facing⟩ ⟨v', pos', facing'⟩ rfl rfl hm r r' hr
    have hprev := h.prevChan_eq hfresh hm
    simp only [Sensor.isPropaguleChild, Sensor.there, Sensor.here, Sensor.topChannel] at hr hprev ⊢
    rw [hr, hprev]

/-- A founder's offspring begins a propagule of its own, and one of this propagule then takes the
founder's place. -/
def branch : List (Deed Rat) :=
  [.found 0 .zero, .reproduce 0 .right 0 3 .none, .settle 1 .zero, .reproduce 1 .right 0 2 .none,
    .settle 0 .zero]

/-- Both tiles descend from the founder's propagule, and neither senses the other as its child. -/
theorem propagule_ancestry_branch : ∃ w₀ ids w, World.new pair = .ok w₀ ∧
    History w₀ branch ids w ∧ ids.Nodup ∧ (w.tile 0).family.prevChan.isSome = true ∧
    (w.tile 0).family.prevChan = (w.tile 1).family.prevChan ∧
    (⟨w, 0, .right⟩ : Sensor Rat).isPropaguleChild 0 = false := by
  have hrun : leadsTo pair branch (fun ids w => decide ids.Nodup &&
      (w.tile 0).family.prevChan.isSome &&
        (w.tile 0).channel.matchesAt (w.tile 1).channel 2 &&
          (⟨w, 0, .right⟩ : Sensor Rat).isChannelMate 2 0) = true := by decide +kernel
  obtain ⟨w₀, ids, w, h₀, hw, ht⟩ := exists_history hrun
  simp only [Bool.and_eq_true, decide_eq_true_eq] at ht
  obtain ⟨⟨⟨hf, hp⟩, hm⟩, hmate⟩ := ht
  obtain ⟨hprev, -, hsensed, -⟩ := propagule_ancestry h₀ hw hf
  exact ⟨w₀, ids, w, h₀, hw, hf, hp, hprev 0 1 hm, (hsensed ⟨w, 0, .right⟩ rfl 0 hmate).1⟩

end World

end Vivarium
