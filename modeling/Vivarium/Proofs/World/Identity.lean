import Vivarium.Proofs.World.Bonds
/-!
# Identity

Births at other tiles, refunds, partial deaths and ageing all touch the books of a tile, and none of
them makes its occupant another one. Main statement: until the next occupant comes or the present
one is removed for good, only ages and children are added to; and what a removal leaves behind stays
blank.
-/
namespace Vivarium

/-! ## Ageing -/

theorem Word.le_add (a b : UInt64) : a ≤ Word.add a b := by
  have ha := a.toNat_lt
  have htop : Word.top.toNat = 2 ^ 64 - 1 := rfl
  unfold Word.add
  split
  · next h =>
    rw [UInt64.le_iff_toNat_le, UInt64.toNat_sub, htop] at h
    rw [UInt64.le_iff_toNat_le, UInt64.toNat_add]
    omega
  · rw [UInt64.le_iff_toNat_le, htop]
    omega

variable {α : Type} [Scalar α]

namespace Channel

variable (c : Channel) (level : Nat)

omit [Scalar α] in
theorem age_le_of_map {f : UInt64 → UInt64} (hf : ∀ a, a ≤ f a) :
    c.age level ≤ { c with ages := c.ages.map f }.age level := by
  simp only [age, List.getD_eq_getElem?_getD, List.getElem?_map]
  cases c.ages[level]? with
  | none => exact UInt64.le_refl _
  | some a => exact hf a

/-- Ages do not fall, even when an instruction asks for it. -/
theorem age_le_incrementAge (aged : Nat) (delta : α) :
    c.age level ≤ (c.incrementAge aged delta).age level := by
  simp only [age, incrementAge, List.getD_eq_getElem?_getD, List.getElem?_modify]
  cases c.ages[level]? with
  | none => exact UInt64.le_refl _
  | some a =>
    by_cases h : aged = level
    · simp only [h, if_true]
      exact Word.le_add a _
    · simp only [h, if_false]
      exact UInt64.le_refl _

theorem age_le_advanceAges (ticks : UInt64) : c.age level ≤ (c.advanceAges ticks).age level := by
  cases h : c.ids with
  | none =>
    rw [advanceAges, h]
    exact UInt64.le_refl _
  | some ids =>
    rw [advanceAges, h]
    exact c.age_le_of_map level fun a => Word.le_add a ticks

end Channel

/-! ## Tiles that keep their occupant -/

/-- The same occupant, or what is left of it, later on. In the meantime it has grown older and got
offspring at the listed places. A dead tile does not come to life, and one without a channel stays
as blank as it is. -/
structure Tile.Ripens (t : Tile α) (born : List Nat) (u : Tile α) : Prop where
  ids : u.channel.ids = t.channel.ids
  generations : u.channel.generations = t.channel.generations
  ages : ∀ level, t.channel.age level ≤ u.channel.age level
  parent : u.family.parent = t.family.parent
  birth : u.family.birth = t.family.birth
  prevChan : u.family.prevChan = t.family.prevChan
  children : ∀ q, u.family.hasChild q = true ↔ t.family.hasChild q = true ∨ q ∈ born
  dead : t.live = false → u.live = false
  blank : t.live = false → t.channel.ids = none → u.channel = t.channel

namespace Tile

variable {t u v : Tile α} {born more : List Nat}

omit [Scalar α] in
/-- Nothing of lineage and family has changed. -/
theorem ripens_of_same (hchannel : u.channel = t.channel) (hfamily : u.family = t.family)
    (hdead : t.live = false → u.live = false) : t.Ripens [] u where
  ids := by rw [hchannel]
  generations := by rw [hchannel]
  ages _ := by rw [hchannel]; exact UInt64.le_refl _
  parent := by rw [hfamily]
  birth := by rw [hfamily]
  prevChan := by rw [hfamily]
  children q := by simp [hfamily]
  dead := hdead
  blank _ _ := hchannel

omit [Scalar α] in
theorem Ripens.refl (t : Tile α) : t.Ripens [] t := ripens_of_same rfl rfl id

omit [Scalar α] in
theorem Ripens.trans (h : t.Ripens born u) (h' : u.Ripens more v) : t.Ripens (born ++ more) v where
  ids := h'.ids.trans h.ids
  generations := h'.generations.trans h.generations
  ages level := UInt64.le_trans (h.ages level) (h'.ages level)
  parent := h'.parent.trans h.parent
  birth := h'.birth.trans h.birth
  prevChan := h'.prevChan.trans h.prevChan
  children q := by rw [h'.children, h.children, List.mem_append, or_assoc]
  dead hl := h'.dead (h.dead hl)
  blank hl hids := (h'.blank (h.dead hl) (h.ids.trans hids)).trans (h.blank hl hids)

omit [Scalar α] in
/-- An offspring is entered. -/
theorem ripens_addChild (t : Tile α) (pos : Nat) :
    t.Ripens [pos] { t with family := t.family.addChild pos } :=
  { Ripens.refl t with
    children := fun q => by
      rw [Family.hasChild_addChild, Bool.or_eq_true, beq_iff_eq, List.mem_singleton, or_comm] }

omit [Scalar α] in
theorem ripens_advanceAges (t : Tile α) (ticks : UInt64) :
    t.Ripens [] { t with channel := t.channel.advanceAges ticks } :=
  { Ripens.refl t with
    ids := t.channel.ids_advanceAges ticks
    generations := by
      unfold Channel.advanceAges
      split <;> rfl
    ages := fun level => t.channel.age_le_advanceAges level ticks
    blank := fun _ hids => by simp only [Channel.advanceAges, hids] }

/-- A level is aged where a cell lives. -/
theorem ripens_incrementAge (hl : t.live = true) (level : Nat) (delta : α) :
    t.Ripens [] { t with channel := t.channel.incrementAge level delta } :=
  { Ripens.refl t with
    ids := rfl
    generations := rfl
    ages := fun l => t.channel.age_le_incrementAge l level delta
    blank := fun hdead => Bool.noConfusion (hl.symm.trans hdead) }

end Tile

/-! ## Effects of frames -/

namespace World

variable {w v w' : World α} {pos : Nat}

/-- A change of one tile is harmless to all if it is to that one. -/
theorem ripens_modify {change : Tile α → Tile α}
    (h : (w.tile pos).Ripens [] (change (w.tile pos))) (q : Nat) :
    (w.tile q).Ripens [] ((w.modify pos change).tile q) := by
  rw [tile_modify]
  split
  · next hq =>
    rw [hq.1]
    exact h
  · exact .refl _

theorem ripens_modifyStockpile (w : World α) (pos : Nat) (f : Stockpile α → Stockpile α) (q : Nat) :
    (w.tile q).Ripens [] ((w.modifyStockpile pos f).tile q) :=
  ripens_modify (Tile.ripens_of_same rfl rfl id) q

theorem ripens_sendResource (w : World α) (pos : Nat) (dir : Direction) (fraction : α) (q : Nat) :
    (w.tile q).Ripens [] ((w.sendResource pos dir fraction).tile q) := by
  by_cases hl : (w.tile (w.neighbor pos dir)).live = true
  · simp only [sendResource, hl, if_true]
    exact (ripens_modifyStockpile w pos _ q).trans (ripens_modifyStockpile _ _ _ q)
  · simp only [sendResource, hl]
    exact .refl _

theorem ripens_tryReproduce (w : World α) (pos : Nat) (facing : Direction) (relative : α)
    (level : Nat) (program : Program FrameOp) (q : Nat) :
    (w.tile q).Ripens [] ((w.tryReproduce pos facing relative level program).2.tile q) := by
  unfold tryReproduce
  cases w.reproductionLevel? pos facing level with
  | none => exact .refl _
  | some used =>
    exact (ripens_modifyStockpile w pos _ q).trans
      (ripens_modify (Tile.ripens_of_same rfl rfl id) q)

/-- Whatever an instruction of a frame does, it does it where a cell lives. -/
theorem Effect.ripens {facing : Direction} {program : Program FrameOp}
    (h : Effect pos facing program w v) (hl : (w.tile pos).live = true) (q : Nat) :
    (w.tile q).Ripens [] (v.tile q) := by
  cases h with
  | send dir fraction => exact ripens_sendResource w pos dir fraction q
  | reproduce relative level => exact ripens_tryReproduce w pos facing relative level _ q
  | age level delta => exact ripens_modify (Tile.ripens_incrementAge hl level delta) q
  | _ => exact ripens_modify (Tile.ripens_of_same rfl rfl id) q

end World

/-- The pass of a living frame lets every tile ripen. -/
theorem Frame.ripens_execute (f : Frame α) {w : World α} (hl : (w.tile f.pos).live = true)
    (q : Nat) : (w.tile q).Ripens [] ((f.execute w).2.tile q) := by
  have h := f.execute_induction
    (I := fun v => (v.tile f.pos).live = true ∧ (w.tile q).Ripens [] (v.tile q))
    (fun v v' he hv => ⟨(he.respects.abides f.pos).live.trans hv.1, hv.2.trans (he.ripens hv.1 q)⟩)
    w ⟨hl, .refl _⟩
  exact h.2

theorem Frame.ripens_advanceEnvironment (f : Frame α) (w : World α) (tick : Tick) (q : Nat) :
    (w.tile q).Ripens [] ((f.advanceEnvironment w tick).2.2.tile q) := by
  unfold advanceEnvironment
  split
  · exact (World.ripens_modifyStockpile w f.pos _ q).trans
      (World.ripens_modify (Tile.ripens_of_same rfl rfl id) q)
  · exact .refl _

/-! ## Deeds -/

namespace Deed

def Occupies (w : World α) (p : Nat) : Deed α → Prop
  | .found pos _ => pos = p
  | .settle pos _ => pos = p ∧ (w.tile pos).intake ≠ []
  | _ => False

def Removes (w : World α) (p : Nat) : Deed α → Prop
  | .vacate pos => pos = p
  | .die pos => pos = p ∧ (w.tile pos).mark = .completeDeath
  | _ => False

/-- A frame carries out its instructions, and a level is aged, only where a cell lives. -/
def FromLife (w : World α) : Deed α → Prop
  | .execute f => (w.tile f.pos).live = true
  | .ageAt pos _ _ => (w.tile pos).live = true
  | _ => True

/-- Where the occupant of a tile gets offspring by the deed: a sire of the tile is settled there. -/
def offspring (w : World α) (p : Nat) : Deed α → List Nat
  | .settle pos _ =>
    match (w.tile pos).intake with
    | [] => []
    | sire :: _ => if sire.record.sourcePos = p then [pos] else []
  | _ => []

end Deed

namespace World

variable {w v : World α} {p pos : Nat}

theorem ripens_turnedAway (w : World α) (pos : Nat) (sires : List (Sire α FrameOp)) (q : Nat) :
    (w.tile q).Ripens [] ((sires.foldl credit (w.clearIntake pos)).tile q) := by
  obtain ⟨stockpile, he⟩ := w.exists_tile_turnedAway pos sires q
  rw [he]
  exact Tile.ripens_of_same rfl rfl id

/-- Elsewhere a settlement enters the offspring with its parent, and that is all. -/
theorem ripens_settleSire (hw : w.Sound) {tick : Tick} {program : Option (Program FrameOp)}
    (hs : w.settleSire pos tick = .ok (program, v))
    (hp : ¬(pos = p ∧ (w.tile pos).intake ≠ [])) :
    (w.tile p).Ripens ((Deed.settle pos tick).offspring w p) (v.tile p) := by
  cases hin : (w.tile pos).intake with
  | nil =>
    obtain ⟨-, rfl⟩ := Prod.mk.inj (Except.ok.inj ((settleSire_nil hin tick).symm.trans hs))
    rw [Deed.offspring, hin]
    exact .refl _
  | cons sire losers =>
    obtain ⟨-, rfl⟩ := of_settleSire_eq_ok hin hs
    have hne : p ≠ pos := fun he => hp ⟨he.symm, hin ▸ List.cons_ne_nil _ _⟩
    have hsource : sire.record.sourcePos < (losers.foldl credit (w.clearIntake pos)).size := by
      rw [(stays_turnedAway w pos losers).size]
      exact hw.sources pos sire (hin ▸ List.mem_cons_self)
    have hturned := ripens_turnedAway w pos losers p
    have hoffspring : (Deed.settle pos tick).offspring w p =
        if sire.record.sourcePos = p then [pos] else [] := by simp only [Deed.offspring, hin]
    rw [hoffspring, tile_install_other hsource tick hne]
    by_cases hparent : sire.record.sourcePos = p
    · rw [if_pos hparent, if_pos hparent.symm]
      exact hturned.trans (Tile.ripens_addChild _ pos)
    · rw [if_neg hparent, if_neg (Ne.symm hparent)]
      exact hturned

/-- A partial death leaves lineage and family in place. -/
theorem ripens_applyApoptosis (w : World α) (pos : Nat)
    (hp : ¬(pos = p ∧ (w.tile pos).mark = .completeDeath)) :
    (w.tile p).Ripens [] ((w.applyApoptosis pos).2.tile p) := by
  unfold applyApoptosis
  cases hm : (w.tile pos).mark with
  | unmarked => exact .refl _
  | partialDeath => exact ripens_modify (Tile.ripens_of_same rfl rfl fun _ => rfl) p
  | completeDeath =>
    have hne : p ≠ pos := fun he => hp ⟨he.symm, hm⟩
    simp only [tile_modify_other _ _ hne]
    exact .refl _

end World

/-- What a deed does to a tile that neither gets an occupant nor loses one for good. -/
theorem Deed.ripens {w v : World α} (hw : w.Sound) {d : Deed α} (hd : d.perform w = .ok v) {p : Nat}
    (hlife : d.FromLife w) (hoccupies : ¬d.Occupies w p) (hremoves : ¬d.Removes w p) :
    (w.tile p).Ripens (d.offspring w p) (v.tile p) := by
  obtain ⟨hpos, hact⟩ := Deed.of_perform_eq_ok hd
  cases d with
  | found pos tick =>
    obtain rfl := Except.ok.inj hact
    rw [World.tile_found (show pos < w.size from hpos), if_neg fun he => hoccupies he.symm]
    exact .refl _
  | settle pos tick =>
    obtain ⟨⟨program, u⟩, hs, rfl⟩ := map_eq_ok hact
    exact World.ripens_settleSire hw hs hoccupies
  | refund pos =>
    obtain ⟨⟨n, u⟩, hr, rfl⟩ := map_eq_ok hact
    obtain rfl := World.of_refundIntake_eq_ok hr
    exact World.ripens_turnedAway w pos _ p
  | reproduce pos facing relative level program =>
    obtain rfl := Except.ok.inj hact
    exact World.ripens_tryReproduce w pos facing relative level program p
  | mark pos mark =>
    obtain rfl := Except.ok.inj hact
    exact World.ripens_modify (Tile.ripens_of_same rfl rfl id) p
  | die pos =>
    obtain rfl := Except.ok.inj hact
    exact World.ripens_applyApoptosis w pos hremoves
  | vacate pos =>
    obtain rfl := Except.ok.inj hact
    rw [World.vacate, World.tile_modify_other _ _ fun he => hremoves he.symm]
    exact .refl _
  | environment f tick =>
    obtain rfl := Except.ok.inj hact
    exact f.ripens_advanceEnvironment w tick p
  | messages f =>
    obtain rfl := Except.ok.inj hact
    exact World.ripens_modify (Tile.ripens_of_same rfl rfl id) p
  | execute f =>
    obtain rfl := Except.ok.inj hact
    unfold Frame.stepOnce
    by_cases hf : f.hasProgram
    · simp only [hf, if_true]
      exact f.ripens_execute hlife p
    · simp only [hf]
      exact .refl _
  | reset f =>
    obtain rfl := Except.ok.inj hact
    exact (World.ripens_modify (Tile.ripens_of_same rfl rfl id) p).trans
      (World.ripens_modify (Tile.ripens_of_same rfl rfl id) p)
  | age pos ticks =>
    obtain rfl := Except.ok.inj hact
    exact World.ripens_modify ((w.tile pos).ripens_advanceAges ticks) p
  | ageAt pos level delta =>
    obtain rfl := Except.ok.inj hact
    exact World.ripens_modify (Tile.ripens_incrementAge hlife level delta) p
  | grow pos amount =>
    obtain rfl := Except.ok.inj hact
    exact World.ripens_modifyStockpile w pos _ p

/-! ## Between two occupancies -/

namespace World

/-- The worlds that can come about while a tile neither gets an occupant nor loses one for good. The
list holds the places where a sire of the tile has been settled meanwhile. -/
inductive Interval (p : Nat) (w : World α) : List Nat → World α → Prop where
  | start : Interval p w [] w
  | act {born u v} (d : Deed α) : Interval p w born u → d.FromLife u → ¬d.Occupies u p →
      ¬d.Removes u p → d.perform u = .ok v → Interval p w (born ++ d.offspring u p) v

variable {config : Config α} {w₀ w u v : World α} {p : Nat} {born : List Nat}

theorem Interval.sound (h : w.Interval p born v) (hw : w.Sound) : v.Sound := by
  induction h with
  | start => exact hw
  | act d _ _ _ _ hd ih => exact ih.perform hd

/-- The occupant, or what is left of it, ripens throughout the interval. -/
theorem Interval.ripens (h : w.Interval p born v) (hw : w.Sound) :
    (w.tile p).Ripens born (v.tile p) := by
  induction h with
  | start => exact .refl _
  | act d hu hlife hoccupies hremoves hd ih =>
    exact ih.trans (d.ripens (hu.sound hw) hd hlife hoccupies hremoves)

/-- A removal for good leaves the tile dead and its channel cleared. -/
theorem tile_of_removes {d : Deed α} (hd : d.perform w = .ok u) (h : d.Removes w p) :
    (u.tile p).live = false ∧ (u.tile p).channel = (w.tile p).channel.clear := by
  obtain ⟨hpos, hact⟩ := Deed.of_perform_eq_ok hd
  cases d with
  | vacate pos =>
    obtain rfl := Except.ok.inj hact
    obtain rfl : pos = p := h
    rw [vacate, tile_modify_same _ _ (show pos < w.size from hpos)]
    exact ⟨rfl, rfl⟩
  | die pos =>
    obtain rfl := Except.ok.inj hact
    obtain ⟨rfl, hm⟩ : pos = p ∧ (w.tile pos).mark = .completeDeath := h
    simp only [applyApoptosis, hm]
    rw [tile_modify_same _ _ (show pos < w.size from hpos)]
    exact ⟨rfl, rfl⟩
  | _ => cases h

omit [Scalar α] in
theorem clear_blank (c : Channel) (level : Nat) :
    c.clear.generation level = 0 ∧ c.clear.age level = 0 := by
  simp only [Channel.generation, Channel.age, Channel.clear, List.getD_eq_getElem?_getD,
    List.getElem?_map]
  constructor
  · cases c.generations[level]? <;> rfl
  · cases c.ages[level]? <;> rfl

/-- The occupant of a tile stays who it is. Whatever has happened to a world, until the next
occupant comes to the tile or the present one is removed for good it keeps its identifiers and
generations, its parent, its birth and the propagule it descends from. It does not get younger at
any level, and to its children are added just the places where a sire of the tile is settled. After
a removal for good the tile holds no identifiers and nothing but zeros, until its next occupant
comes. -/
theorem occupant_stays (h₀ : World.new config = .ok w₀) {deeds : List (Deed α)}
    {ids : List ChannelId} (hw : History w₀ deeds ids w) (p : Nat) :
    (∀ born v, w.Interval p born v →
      (v.tile p).channel.ids = (w.tile p).channel.ids ∧
      (v.tile p).channel.generations = (w.tile p).channel.generations ∧
      (∀ level, (w.tile p).channel.age level ≤ (v.tile p).channel.age level) ∧
      (v.tile p).family.parent = (w.tile p).family.parent ∧
      (v.tile p).family.birth = (w.tile p).family.birth ∧
      (v.tile p).family.prevChan = (w.tile p).family.prevChan ∧
      ∀ q, (v.tile p).family.hasChild q = true ↔
        (w.tile p).family.hasChild q = true ∨ q ∈ born) ∧
    ∀ (d : Deed α) (u : World α) born v, d.Removes w p → d.perform w = .ok u → u.Interval p born v →
      (v.tile p).channel.ids = none ∧
      ∀ level, (v.tile p).channel.generation level = 0 ∧ (v.tile p).channel.age level = 0 := by
  have hsound := (sound_new h₀).history hw
  constructor
  · intro born v hv
    have h := hv.ripens hsound
    exact ⟨h.ids, h.generations, h.ages, h.parent, h.birth, h.prevChan, h.children⟩
  · intro d u born v hremoves hd hv
    obtain ⟨hdead, hclear⟩ := tile_of_removes hd hremoves
    have h := (hv.ripens (hsound.perform hd)).blank hdead (by rw [hclear]; rfl)
    rw [h, hclear]
    exact ⟨rfl, clear_blank _⟩

def homestead : Config Rat :=
  { Config.standard with gridWidth := 2, gridHeight := 1, repThresh := 0 }

def expectant : List (Deed Rat) := [.found 0 ⟨5⟩, .reproduce 0 .right 0 0 .none]

/-- A frame of the founder that ages it and sends more sires. -/
def restless : Frame Rat :=
  ((Frame.build 0 .right homestead (.ofSeed 0)).setProgram ⟨[⟨.new 0,
    [.bare (.ext (.leveled .incrCellAge 0)), .bare (.ext (.leveled .tryReproduce 0))]⟩]⟩).excite
      [.new 0]

/-- The founder gets a child, ages by its own doing, dies in part and ages on. Where it is removed
while its sire still waits, the tile remains blank although a child is entered there. -/
theorem occupant_stays_founder : ∃ w₀ ids w v u x, World.new homestead = .ok w₀ ∧
    History w₀ expectant ids w ∧ (w.tile 0).live = true ∧ (w.tile 0).channel.age 0 = 0 ∧
    (w.Interval 0 [1] v ∧ (v.tile 0).live = false ∧
      (v.tile 0).channel.ids = (w.tile 0).channel.ids ∧
      (v.tile 0).family.birth = (w.tile 0).family.birth ∧
      (v.tile 0).family.hasChild 1 = true ∧ (v.tile 0).channel.age 0 = 4) ∧
    (Deed.vacate 0).perform w = .ok u ∧ u.Interval 0 [1] x ∧
      (x.tile 0).family.hasChild 1 = true ∧ (x.tile 0).channel.ids = none ∧
      (x.tile 0).channel.age 0 = 0 := by
  have hrun : leadsTo homestead expectant (fun _ w => (w.tile 0).live &&
      decide ((Deed.settle 1 ⟨6⟩).offspring w 0 = [1] ∧ (w.tile 0).channel.age 0 = 0) &&
      (yields ((Deed.settle 1 ⟨6⟩).perform w) fun a => (a.tile 0).live &&
        yields ((Deed.execute restless).perform a) fun b =>
        yields ((Deed.mark 0 .partialDeath).perform b) fun c =>
        decide ((c.tile 0).mark = .partialDeath) && yields ((Deed.die 0).perform c) fun e =>
        yields ((Deed.age 0 3).perform e) fun v =>
          decide ((v.tile 0).live = false ∧ (v.tile 0).channel.age 0 = 4)) &&
      (yields ((Deed.vacate 0).perform w) fun u =>
        yields ((Deed.age 0 7).perform u) fun y =>
        decide ((Deed.settle 1 ⟨6⟩).offspring y 0 = [1]) &&
        yields ((Deed.settle 1 ⟨6⟩).perform y) fun _ => true)) = true := by
    decide +kernel
  obtain ⟨w₀, ids, w, h₀, hw, ht⟩ := exists_history hrun
  simp only [Bool.and_eq_true, decide_eq_true_eq] at ht
  obtain ⟨⟨⟨hlive, hborn, hyoung⟩, hkept⟩, hremoved⟩ := ht
  obtain ⟨a, ha, ht⟩ := of_yields hkept
  simp only [Bool.and_eq_true] at ht
  obtain ⟨halive, ht⟩ := ht
  obtain ⟨b, hb, ht⟩ := of_yields ht
  obtain ⟨c, hc, ht⟩ := of_yields ht
  simp only [Bool.and_eq_true, decide_eq_true_eq] at ht
  obtain ⟨hmark, ht⟩ := ht
  obtain ⟨e, he, ht⟩ := of_yields ht
  obtain ⟨v, hv, ht⟩ := of_yields ht
  obtain ⟨hdead, hold⟩ := of_decide_eq_true ht
  have hinterval := Interval.start (p := 0) (w := w)
    |>.act (.settle 1 ⟨6⟩) trivial (fun h => by cases h.1) id ha
    |>.act (.execute restless) halive id id hb
    |>.act (.mark 0 .partialDeath) trivial id id hc
    |>.act (.die 0) trivial id (fun h => by cases hmark.symm.trans h.2) he
    |>.act (.age 0 3) trivial id id hv
  rw [hborn] at hinterval
  obtain ⟨u, hu, ht⟩ := of_yields hremoved
  obtain ⟨y, hy, ht⟩ := of_yields ht
  simp only [Bool.and_eq_true, decide_eq_true_eq] at ht
  obtain ⟨hborn', ht⟩ := ht
  obtain ⟨x, hx, -⟩ := of_yields ht
  have hinterval' := Interval.start (p := 0) (w := u)
    |>.act (.age 0 7) trivial id id hy
    |>.act (.settle 1 ⟨6⟩) trivial (fun h => by cases h.1) id hx
  rw [hborn'] at hinterval'
  obtain ⟨hids, -, -, -, hbirth, -, hchildren⟩ := (occupant_stays h₀ hw 0).1 [1] v hinterval
  obtain ⟨hnone, hzero⟩ := (occupant_stays h₀ hw 0).2 (.vacate 0) u [1] x rfl hu hinterval'
  have hentered := (occupant_stays h₀ (hw.act (.vacate 0) hu) 0).1 [1] x hinterval'
  obtain ⟨-, -, -, -, -, -, hchildren'⟩ := hentered
  exact ⟨w₀, ids, w, v, u, x, h₀, hw, hlive, hyoung, ⟨hinterval, hdead, hids, hbirth,
    (hchildren 1).2 (.inr List.mem_cons_self), hold⟩, hu, hinterval',
    (hchildren' 1).2 (.inr List.mem_cons_self), hnone, (hzero 0).2⟩

end World

end Vivarium
