import Vivarium.Proofs.World.Birth
/-!
# The visits of the tiles

A step begins with a visit of every tile. The sires that wait there are all turned away if the tile is
occupied; otherwise the first is settled and the others are turned away. The visits do not get in each
other's way, so what becomes of a sire, and of the tile that it comes from or settles on, can be read off
the world as it was before the first visit.
-/
namespace Vivarium

variable {α : Type} [Scalar α] {w v : World α} {pos : Nat} {tick : Tick}

/-! ## Fates -/

/-- What becomes of a waiting sire. -/
inductive Fate (α : Type) where
  | settled (sire : Sire α FrameOp)
  | turnedAway (sire : Sire α FrameOp)

/-- An amount that a tile is credited with, and the side from which it comes. -/
structure Credit (α : Type) where
  amount : α
  side : Direction

namespace Fate

def sire : Fate α → Sire α FrameOp
  | settled sire | turnedAway sire => sire

/-- What the tile `q` is credited with when the fate is carried out at `pos`. -/
def credits (pos q : Nat) : Fate α → List (Credit α)
  | settled sire =>
    if pos = q then [⟨sire.endowment, (Direction.ofNat sire.record.dir).opposite⟩] else []
  | turnedAway sire =>
    if sire.record.sourcePos = q then [⟨sire.endowment, .ofNat sire.record.dir⟩] else []

def carryOut (tick : Tick) (pos : Nat) (w : World α) : Fate α → Except Fault (World α)
  | settled sire => w.settle pos tick sire
  | turnedAway sire => w.refund sire

end Fate

namespace Tile

def settles? (t : Tile α) : Option (Sire α FrameOp) := if t.live then none else t.intake.head?

def turnsAway (t : Tile α) : List (Sire α FrameOp) := if t.live then t.intake else t.intake.tail

/-- What a visit does with the sires that wait, in the order in which it is done. -/
def fates (t : Tile α) : List (Fate α) :=
  t.turnsAway.map .turnedAway ++ t.settles?.toList.map .settled

variable {t u : Tile α} {sire : Sire α FrameOp}

omit [Scalar α] in
/-- Every waiting sire meets one fate. -/
theorem fates_perm (t : Tile α) : (t.fates.map (·.sire)).Perm t.intake := by
  have hsires : t.fates.map (·.sire) = t.turnsAway ++ t.settles?.toList := by
    simp [fates, Fate.sire, Function.comp_def]
  rw [hsires]
  cases hl : t.live with
  | true => simp [turnsAway, settles?, hl]
  | false =>
    cases hin : t.intake with
    | nil => simp [turnsAway, settles?, hl, hin]
    | cons sire losers => simp [turnsAway, settles?, hl, hin]

omit [Scalar α] in
/-- The fates depend on nothing but the occupancy and the queue. -/
theorem fates_congr (hl : u.live = t.live) (hin : u.intake = t.intake) : u.fates = t.fates := by
  simp only [fates, settles?, turnsAway, hl, hin]

omit [Scalar α] in
theorem settles?_congr (hl : u.live = t.live) (hin : u.intake = t.intake) :
    u.settles? = t.settles? := by simp only [settles?, hl, hin]

omit [Scalar α] in
theorem mem_of_settles? (h : t.settles? = some sire) : t.live = false ∧ sire ∈ t.intake := by
  unfold settles? at h
  cases hl : t.live with
  | true => simp [hl] at h
  | false =>
    rw [hl] at h
    exact ⟨rfl, List.mem_of_head? h⟩

omit [Scalar α] in
theorem mem_of_turnsAway (h : sire ∈ t.turnsAway) : sire ∈ t.intake := by
  unfold turnsAway at h
  split at h
  · exact h
  · exact List.mem_of_mem_tail h

/-- The tiles differ in nothing but their stockpiles and their books of children. -/
def Akin (t u : Tile α) : Prop :=
  ∃ stockpile children, u = { t with stockpile, family := { t.family with children } }

omit [Scalar α] in
theorem Akin.refl (t : Tile α) : t.Akin t := ⟨_, _, rfl⟩

omit [Scalar α] in
theorem Akin.trans {s : Tile α} (h : s.Akin t) (h' : t.Akin u) : s.Akin u := by
  obtain ⟨_, _, rfl⟩ := h
  obtain ⟨stockpile, children, rfl⟩ := h'
  exact ⟨stockpile, children, rfl⟩

/-- The tile as its visit leaves it, but for stockpile and children. The identifiers of a new occupant
come from the generator. -/
def visited (t : Tile α) (levels : List Level) (tick : Tick) (g : Generator) : Tile α :=
  match t.settles? with
  | none => { t with intake := [] }
  | some sire =>
    { t with
      intake := []
      channel := (Channel.ofSire levels sire.record g).1
      family := .settled (some sire.record.sourcePos) tick sire.record.prevChan }.occupy

/-- Tiles that are akin are so after their visits. -/
theorem Akin.visited (h : t.Akin u) (levels : List Level) (tick : Tick) (g : Generator) :
    (t.visited levels tick g).Akin (u.visited levels tick g) := by
  obtain ⟨stockpile, children, rfl⟩ := h
  simp only [Tile.visited]
  cases hs : t.settles? with
  | none =>
    have hs' : settles? { t with stockpile, family := { t.family with children } } = none := hs
    simp only [hs']
    exact ⟨stockpile, children, rfl⟩
  | some sire =>
    have hs' : settles? { t with stockpile, family := { t.family with children } } = some sire := hs
    simp only [hs']
    exact ⟨stockpile, .empty, rfl⟩

end Tile

/-! ## Books of account -/

namespace Stockpile

/-- The stockpile once credits have been booked, first come first. -/
def book (s : Stockpile α) (credits : List (Credit α)) : Stockpile α :=
  credits.foldl (fun s c => s.contribute c.amount c.side) s

variable (s : Stockpile α) (credits : List (Credit α))

theorem book_append (more : List (Credit α)) : s.book (credits ++ more) = (s.book credits).book more :=
  List.foldl_append

/-- The balance accrues what is booked. -/
theorem resource_book : (s.book credits).resource = accrue s.resource (credits.map (·.amount)) := by
  induction credits generalizing s with
  | nil => rfl
  | cons c rest ih =>
    rw [book, List.foldl_cons]
    refine (ih _).trans ?_
    rw [resource_contribute_eq_accrue]
    rfl

/-- Every side has its own account. -/
theorem contributions_book (d : Direction) : (s.book credits).contributions.get d =
    accrue (s.contributions.get d) ((credits.filter (·.side = d)).map (·.amount)) := by
  induction credits generalizing s with
  | nil => rfl
  | cons c rest ih =>
    have hfirst : (s.contribute c.amount c.side).contributions.get d =
        if c.side = d then accrue (s.contributions.get d) [c.amount] else s.contributions.get d := by
      rw [accrue, List.foldl_cons, List.foldl_nil, contribute, creditable]
      split
      · split
        · next hd => rw [hd, PerFacing.get_modify_same]
        · next hd => rw [PerFacing.get_modify_other _ _ (Ne.symm hd)]
      · split
        · rfl
        · rfl
    rw [book, List.foldl_cons]
    refine (ih _).trans ?_
    rw [hfirst]
    by_cases hd : c.side = d
    · rw [if_pos hd, List.filter_cons_of_pos (by simp [hd])]
      rfl
    · rw [if_neg hd, List.filter_cons_of_neg (by simp [hd])]

theorem harvested_book : (s.book credits).harvested = s.harvested := by
  induction credits generalizing s with
  | nil => rfl
  | cons c rest ih =>
    have hfirst : (s.contribute c.amount c.side).harvested = s.harvested := by
      unfold contribute
      split
      · rfl
      · rfl
    exact (ih _).trans hfirst

/-- The endowments that come back to a tile are among the credits of the visit. -/
theorem reclaim_eq_book (pos q : Nat) (sires : List (Sire α FrameOp)) :
    s.reclaim (sires.filter (·.record.sourcePos = q)) =
      s.book ((sires.map Fate.turnedAway).flatMap (Fate.credits pos q)) := by
  induction sires generalizing s with
  | nil => rfl
  | cons sire rest ih =>
    rw [List.map_cons, List.flatMap_cons, book_append, ← ih, Fate.credits]
    by_cases hq : sire.record.sourcePos = q
    · rw [List.filter_cons_of_pos (by simp [hq]), if_pos hq]
      rfl
    · rw [List.filter_cons_of_neg (by simp [hq]), if_neg hq]
      rfl

end Stockpile

/-! ## One visit -/

namespace World

/-- The sires are taken off the tile, and their fates are carried out. -/
def dispose (w : World α) (tick : Tick) (pos : Nat) (fates : List (Fate α)) :
    Except Fault (World α) := fates.foldlM (Fate.carryOut tick pos) (w.clearIntake pos)

def taken (w : World α) (tick : Tick) (pos : Nat) : World α :=
  match (w.tile pos).settles? with
  | none => (w.tile pos).turnsAway.foldl credit (w.clearIntake pos)
  | some sire => w.settled pos tick sire (w.tile pos).turnsAway

/-- The parent of a settled sire is on the grid. -/
theorem Sound.source_lt (hw : w.Sound) {sire : Sire α FrameOp}
    (hs : (w.tile pos).settles? = some sire) : sire.record.sourcePos < w.size :=
  hw.sources pos sire (Tile.mem_of_settles? hs).2

/-- In a sound world no fate is refused. -/
theorem dispose_eq (hw : w.Sound) (tick : Tick) (pos : Nat) :
    w.dispose tick pos (w.tile pos).fates = .ok (w.taken tick pos) := by
  have hrefund := (w.clearIntake pos).refunds_eq fun sire hs => by
    rw [clearIntake, size_modify]
    exact hw.sources pos sire (Tile.mem_of_turnsAway hs)
  rw [dispose, Tile.fates, List.foldlM_append, List.foldlM_map]
  change (List.foldlM refund (w.clearIntake pos) (w.tile pos).turnsAway >>= _) = _
  rw [hrefund]
  cases hs : (w.tile pos).settles? with
  | none => simp only [taken, hs]; rfl
  | some sire =>
    simp only [taken, hs]
    change (settle _ pos tick sire >>= fun v => pure v) = _
    rw [settle_eq ((stays_turnedAway w pos _).size.symm ▸ hw.source_lt hs)]
    rfl

theorem intake_taken (w : World α) (tick : Tick) (pos q : Nat) :
    ((w.taken tick pos).tile q).intake = if q = pos then [] else (w.tile q).intake := by
  unfold taken
  cases (w.tile pos).settles? with
  | none => simp only [intake_credits, intake_clearIntake]
  | some sire => simp only [settled, intake_install, intake_credits, intake_clearIntake]

/-- A visit reaches other tiles only through their stockpiles and their books of children. -/
theorem akin_taken_other (hw : w.Sound) (tick : Tick) {q : Nat} (hq : q ≠ pos) :
    (w.tile q).Akin ((w.taken tick pos).tile q) := by
  obtain ⟨stockpile, htile⟩ := w.exists_tile_turnedAway pos (w.tile pos).turnsAway q
  rw [if_neg hq] at htile
  unfold taken
  cases hs : (w.tile pos).settles? with
  | none => exact ⟨stockpile, _, htile⟩
  | some sire =>
    have hsource := (stays_turnedAway w pos (w.tile pos).turnsAway).size.symm ▸ hw.source_lt hs
    simp only [settled, tile_install_other hsource tick hq, htile]
    split
    · exact ⟨stockpile, _, rfl⟩
    · exact ⟨stockpile, _, rfl⟩

/-- A tile without a new occupant is the same but for its stockpile and its queue. -/
theorem exists_tile_taken_unsettled (w : World α) (tick : Tick) (hs : (w.tile pos).settles? = none) :
    ∃ stockpile, (w.taken tick pos).tile pos = { w.tile pos with stockpile, intake := [] } := by
  obtain ⟨stockpile, htile⟩ := w.exists_tile_turnedAway pos (w.tile pos).turnsAway pos
  rw [if_pos rfl] at htile
  simp only [taken, hs]
  exact ⟨stockpile, htile⟩

/-- A new occupant finds the tile tidy. -/
theorem tile_taken_same (hw : w.Sound) (hp : pos < w.size) (tick : Tick) {sire : Sire α FrameOp}
    (hs : (w.tile pos).settles? = some sire) :
    ∃ stockpile children, (w.taken tick pos).tile pos =
      { w.tile pos with
        channel := (Channel.ofSire w.config.levels sire.record w.rng).1
        family := ⟨some sire.record.sourcePos, children, tick, sire.record.prevChan⟩
        stockpile, intake := [] }.occupy := by
  simp only [taken, hs, tile_settled_same hp (hw.source_lt hs)]
  split
  · exact ⟨_, _, rfl⟩
  · exact ⟨_, _, rfl⟩

theorem akin_taken_same (hw : w.Sound) (hp : pos < w.size) (tick : Tick) :
    ((w.tile pos).visited w.config.levels tick w.rng).Akin ((w.taken tick pos).tile pos) := by
  cases hs : (w.tile pos).settles? with
  | none =>
    obtain ⟨stockpile, htile⟩ := w.exists_tile_taken_unsettled tick hs
    simp only [htile, Tile.visited, hs]
    exact ⟨stockpile, _, rfl⟩
  | some sire =>
    obtain ⟨stockpile, children, htile⟩ := tile_taken_same hw hp tick hs
    simp only [htile, Tile.visited, hs]
    exact ⟨stockpile, children, rfl⟩

/-- A visit books its credits and nothing else. -/
theorem stockpile_taken (hw : w.Sound) (hp : pos < w.size) (tick : Tick) {q : Nat} (hq : q < w.size) :
    ((w.taken tick pos).tile q).stockpile =
      (w.tile q).stockpile.book ((w.tile pos).fates.flatMap (Fate.credits pos q)) := by
  rw [Tile.fates, List.flatMap_append, Stockpile.book_append, ← Stockpile.reclaim_eq_book]
  cases hs : (w.tile pos).settles? with
  | none =>
    simp only [taken, hs]
    exact stockpile_turnedAway w pos _ hq
  | some sire =>
    rw [Option.toList_some, List.map_singleton, List.flatMap_singleton, Fate.credits]
    simp only [taken, hs]
    by_cases hpq : pos = q
    · subst hpq
      rw [tile_settled_same hp (hw.source_lt hs), if_pos rfl]
      rfl
    · rw [tile_settled_other hq (hw.source_lt hs) (Ne.symm hpq), if_neg hpq]
      rfl

def drawsAt (w : World α) (pos : Nat) : Nat :=
  match (w.tile pos).settles? with
  | none => 0
  | some sire => sire.record.renewals w.config.levels.length

theorem taken_ground (w : World α) (tick : Tick) (pos : Nat) :
    (w.taken tick pos).config = w.config ∧ (w.taken tick pos).grid = w.grid ∧
      (w.taken tick pos).size = w.size ∧
      (w.taken tick pos).rng = (w.rng.draw (w.drawsAt pos)).2 := by
  unfold taken drawsAt
  cases (w.tile pos).settles? with
  | none =>
    have hst := stays_turnedAway w pos (w.tile pos).turnsAway
    exact ⟨hst.config, hst.grid, hst.size, hst.rng⟩
  | some sire => exact w.settled_ground pos tick sire (w.tile pos).turnsAway

theorem Sound.taken (hw : w.Sound) (tick : Tick) (pos : Nat) : (w.taken tick pos).Sound := by
  obtain ⟨hconfig, hgrid, hsize, -⟩ := w.taken_ground tick pos
  refine ⟨?_, ?_, ?_, fun q sire hs => ?_⟩
  · rw [hgrid, hsize, hw.grid_size]
  · rw [hconfig, hw.levels_length]
  · rw [hconfig]
    exact hw.nlev_pos
  · rw [intake_taken] at hs
    rw [hsize]
    split at hs
    · cases hs
    · exact hw.sources q sire hs

/-- The sire that settles on a tile is entered with its parent, and whoever settles has no other child
yet. -/
theorem hasChild_taken (hw : w.Sound) (hp : pos < w.size) (tick : Tick) {q : Nat} (hq : q < w.size)
    (p : Nat) : ((w.taken tick pos).tile q).family.hasChild p = true ↔
      (p = pos ∧ ∃ sire, (w.tile pos).settles? = some sire ∧ sire.record.sourcePos = q) ∨
        (¬(q = pos ∧ (w.tile pos).settles?.isSome) ∧ (w.tile q).family.hasChild p = true) := by
  cases hs : (w.tile pos).settles? with
  | none =>
    have hfamily : ((w.taken tick pos).tile q).family = (w.tile q).family := by
      obtain ⟨stockpile, htile⟩ := w.exists_tile_turnedAway pos (w.tile pos).turnsAway q
      simp only [taken, hs, htile]
    rw [hfamily]
    simp
  | some sire =>
    simp only [taken, hs, Option.some.injEq, exists_eq_left', Option.isSome_some, and_true]
    by_cases hqp : q = pos
    · subst hqp
      rw [tile_settled_same hp (hw.source_lt hs)]
      change (ite _ _ _ : Family).hasChild p = true ↔ _
      by_cases hsource : q = sire.record.sourcePos
      · simp [hsource.symm]
      · simp [if_neg hsource, Ne.symm hsource]
    · rw [tile_settled_other hq (hw.source_lt hs) hqp]
      change (ite _ _ _ : Family).hasChild p = true ↔ _
      by_cases hsource : q = sire.record.sourcePos
      · simp [hsource.symm, hqp]
      · simp [if_neg hsource, Ne.symm hsource, hqp]

/-! ## A visit of every tile -/

/-- What the tile `q` is credited with in the visits of the first `n` tiles, first credited first. -/
def creditsBelow (w : World α) (n q : Nat) : List (Credit α) :=
  (List.range n).flatMap fun pos => (w.tile pos).fates.flatMap (Fate.credits pos q)

def drawsBelow (w : World α) (n : Nat) : Nat := ((List.range n).map w.drawsAt).sum

/-- The first `n` tiles have been visited. -/
structure Sweep (w : World α) (tick : Tick) (n : Nat) (v : World α) : Prop where
  sound : v.Sound
  config : v.config = w.config
  size : v.size = w.size
  rng : v.rng = (w.rng.draw (w.drawsBelow n)).2
  ahead : ∀ q, n ≤ q → (w.tile q).Akin (v.tile q)
  behind : ∀ q, q < n →
    ((w.tile q).visited w.config.levels tick (w.rng.draw (w.drawsBelow q)).2).Akin (v.tile q)
  stockpile : ∀ q < w.size, (v.tile q).stockpile = (w.tile q).stockpile.book (w.creditsBelow n q)
  /-- Whoever settles on a tile has the children that settle after it. -/
  hasChild : ∀ q < w.size, ∀ p, (v.tile q).family.hasChild p = true ↔
    (p < n ∧ (∃ sire, (w.tile p).settles? = some sire ∧ sire.record.sourcePos = q) ∧
      ¬(p < q ∧ q < n ∧ (w.tile q).settles?.isSome)) ∨
    (¬(q < n ∧ (w.tile q).settles?.isSome) ∧ (w.tile q).family.hasChild p = true)

theorem sweep_zero (hw : w.Sound) (tick : Tick) : w.Sweep tick 0 w where
  sound := hw
  config := rfl
  size := rfl
  rng := rfl
  ahead q _ := .refl (w.tile q)
  behind q hq := absurd hq (Nat.not_lt_zero q)
  stockpile _ _ := rfl
  hasChild q _ p := by simp

/-- One more tile is visited. -/
theorem Sweep.next {n : Nat} (h : w.Sweep tick n v) (hn : n < w.size) :
    w.Sweep tick (n + 1) (v.taken tick n) := by
  obtain ⟨hconfig, -, hsize, hrng⟩ := v.taken_ground tick n
  have hn' : n < v.size := h.size.symm ▸ hn
  have hsame : (v.tile n).live = (w.tile n).live ∧ (v.tile n).intake = (w.tile n).intake := by
    obtain ⟨stockpile, children, htile⟩ := h.ahead n le_rfl
    rw [htile]
    exact ⟨rfl, rfl⟩
  have hsettles := Tile.settles?_congr hsame.1 hsame.2
  constructor
  · exact h.sound.taken tick n
  · exact hconfig.trans h.config
  · exact hsize.trans h.size
  · have hdraws : v.drawsAt n = w.drawsAt n := by simp only [drawsAt, hsettles, h.config]
    rw [hrng, hdraws, h.rng, drawsBelow, drawsBelow, List.range_succ, List.map_append, List.sum_append,
      Generator.draw_add]
    rfl
  · intro q hq
    exact (h.ahead q (by omega)).trans (akin_taken_other h.sound tick (by omega))
  · intro q hq
    by_cases hqn : q = n
    · subst hqn
      have hthere := (h.ahead q le_rfl).visited w.config.levels tick (w.rng.draw (w.drawsBelow q)).2
      rw [← h.rng, ← h.config] at hthere ⊢
      exact hthere.trans (akin_taken_same h.sound hn' tick)
    · exact (h.behind q (by omega)).trans (akin_taken_other h.sound tick hqn)
  · intro q hq
    rw [stockpile_taken h.sound hn' tick (h.size.symm ▸ hq), h.stockpile q hq,
      Tile.fates_congr hsame.1 hsame.2, creditsBelow, creditsBelow, List.range_succ,
      List.flatMap_append, Stockpile.book_append, List.flatMap_singleton]
  · intro q hq p
    rw [hasChild_taken h.sound hn' tick (h.size.symm ▸ hq), hsettles, h.hasChild q hq p]
    -- What is left compares places with `n` and with each other; nothing about the tiles is used.
    grind

theorem exists_sweep (hw : w.Sound) (tick : Tick) {n : Nat} (hn : n ≤ w.size) :
    ∃ v, (List.range n).foldlM (fun u pos => u.dispose tick pos (w.tile pos).fates) w = .ok v ∧
      w.Sweep tick n v := by
  induction n with
  | zero => exact ⟨w, rfl, sweep_zero hw tick⟩
  | succ n ih =>
    obtain ⟨v, hfold, hsweep⟩ := ih (by omega)
    obtain ⟨stockpile, children, htile⟩ := hsweep.ahead n le_rfl
    have hfates : (w.tile n).fates = (v.tile n).fates := by
      rw [htile]
      exact Tile.fates_congr rfl rfl
    refine ⟨_, ?_, hsweep.next hn⟩
    rw [List.range_succ, List.foldlM_append, hfold]
    change (v.dispose tick n (w.tile n).fates >>= fun u => pure u) = _
    rw [hfates, dispose_eq hsweep.sound]
    rfl

end World

/-- The offspring of a sire has been founded on the tile. Its lineage is that of the record from the
level of the reproduction up, one generation on, and new below it, with identifiers from the generator. -/
structure Tile.Founded (t : Tile α) (sire : Sire α FrameOp) (levels : List Level) (tick : Tick)
    (g : Generator) : Prop where
  live : t.live = true
  mark : t.mark = .unmarked
  inboxes : ∀ d, t.inboxes.get d = []
  parent : t.family.parent = some sire.record.sourcePos
  birth : t.family.birth = tick
  prevChan : t.family.prevChan = sire.record.prevChan
  expirations : t.channel.expirations = levels.map (·.expiration)
  above : ∀ level < levels.length, ∀ id, sire.record.level ≤ level → sire.record.ids[level]? = some id →
    t.channel.id? level = some id ∧
      t.channel.generation level = Word.add (sire.record.generations.getD level 0) 1 ∧
      t.channel.age level = sire.record.ages.getD level 0
  below : ∀ level < levels.length, level < sire.record.level ∨ sire.record.ids[level]? = none →
    t.channel.id? level =
        (g.draw (sire.record.renewals levels.length)).1[sire.record.renewals level]? ∧
      t.channel.generation level = 0 ∧ t.channel.age level = 0

/-- A tile that settles a sire is founded by its visit. -/
theorem Tile.founded_visited {t u : Tile α} {levels : List Level} {g : Generator}
    {sire : Sire α FrameOp} (h : (t.visited levels tick g).Akin u) (hs : t.settles? = some sire) :
    u.Founded sire levels tick g := by
  obtain ⟨stockpile, children, rfl⟩ := h
  simp only [visited, hs]
  have hbequest (level : Nat) (hl : level < levels.length) :=
    Channel.bequest_ofSire (r := sire.record) hl g
  have hid (level : Nat) (hl : level < levels.length) := Channel.id?_ofSire (r := sire.record) hl g
  refine ⟨rfl, rfl, fun d => PerFacing.get_replicate [] d, rfl, rfl, rfl, rfl, ?_, ?_⟩
  · intro level hl id hlevel hsome
    have hkeeps : sire.record.renews level = false := by simp [SireRecord.renews, hsome, hlevel]
    have hid := hid level hl
    have hbequest := hbequest level hl
    simp only [SireRecord.bequest, hkeeps, Bool.false_eq_true, if_false, hsome] at hid hbequest
    exact ⟨hid, hbequest⟩
  · intro level hl hfresh
    have hrenews : sire.record.renews level = true := by
      rcases hfresh with hlt | hnone
      · simp [SireRecord.renews, hlt]
      · simp [SireRecord.renews, hnone]
    have hid := hid level hl
    have hbequest := hbequest level hl
    simp only [SireRecord.bequest, hrenews, if_true] at hid hbequest
    exact ⟨hid, hbequest⟩

namespace World

/-- All tiles have been visited. -/
structure Visited (w : World α) (tick : Tick) (v : World α) : Prop where
  /-- The fates are carried out, place by place. -/
  carried : (List.range w.size).foldlM (fun u q => u.dispose tick q (w.tile q).fates) w = .ok v
  emptied : ∀ q, (v.tile q).intake = []
  /-- The first sire that waits at a tile without an occupant is settled there. -/
  founded : ∀ q sire, (w.tile q).settles? = some sire →
    (v.tile q).Founded sire w.config.levels tick (w.rng.draw (w.drawsBelow q)).2
  kept : ∀ q, (w.tile q).settles? = none → ∃ stockpile children, v.tile q =
    { w.tile q with intake := [], stockpile, family := { (w.tile q).family with children } }
  /-- Every endowment is credited once, to the tile on which its sire has settled or to the one from
  which it came. -/
  resource : ∀ q < w.size, (v.tile q).stockpile.resource =
    Stockpile.accrue (w.tile q).stockpile.resource ((w.creditsBelow w.size q).map (·.amount))
  contributions : ∀ q < w.size, ∀ d, (v.tile q).stockpile.contributions.get d =
    Stockpile.accrue ((w.tile q).stockpile.contributions.get d)
      (((w.creditsBelow w.size q).filter (·.side = d)).map (·.amount))
  harvested : ∀ q < w.size, (v.tile q).stockpile.harvested = (w.tile q).stockpile.harvested
  /-- An occupant that stays has its children and those that have settled; a new one has those that
  settle after it. -/
  children : ∀ q < w.size, ∀ p, (v.tile q).family.hasChild p = true ↔
    ((∃ sire, (w.tile p).settles? = some sire ∧ sire.record.sourcePos = q) ∧
      ((w.tile q).settles? = none ∨ q ≤ p)) ∨
    ((w.tile q).settles? = none ∧ (w.tile q).family.hasChild p = true)
  rng : v.rng = (w.rng.draw (w.drawsBelow w.size)).2

theorem tile_of_not_lt {q : Nat} (hq : ¬q < w.size) :
    w.tile q = .barren w.config.nlev w.config.levels := dif_neg hq

theorem lt_of_settles? {q : Nat} {sire : Sire α FrameOp} (hs : (w.tile q).settles? = some sire) :
    q < w.size := by
  by_contra hq
  rw [tile_of_not_lt hq] at hs
  cases hs

/-- Beyond the grid a visit would change nothing. -/
theorem Sweep.akin (h : w.Sweep tick w.size v) (q : Nat) :
    ((w.tile q).visited w.config.levels tick (w.rng.draw (w.drawsBelow q)).2).Akin (v.tile q) := by
  by_cases hq : q < w.size
  · exact h.behind q hq
  · have hahead := h.ahead q (Nat.le_of_not_lt hq)
    rw [tile_of_not_lt hq] at hahead ⊢
    exact hahead

/-- An occupant that stays forgets no child; a new one has those that settle after it. -/
theorem Sweep.children (h : w.Sweep tick w.size v) {q : Nat} (hq : q < w.size) (p : Nat) :
    (v.tile q).family.hasChild p = true ↔
      ((∃ sire, (w.tile p).settles? = some sire ∧ sire.record.sourcePos = q) ∧
        ((w.tile q).settles? = none ∨ q ≤ p)) ∨
      ((w.tile q).settles? = none ∧ (w.tile q).family.hasChild p = true) := by
  rw [h.hasChild q hq p]
  simp only [hq, true_and, Option.isSome_iff_ne_none]
  constructor
  · rintro (⟨-, hp, hlater⟩ | ⟨hstays, hold⟩)
    · refine .inl ⟨hp, ?_⟩
      by_cases hs : (w.tile q).settles? = none
      · exact .inl hs
      · exact .inr (Nat.le_of_not_lt fun hlt => hlater ⟨hlt, hs⟩)
    · exact .inr ⟨not_not.1 hstays, hold⟩
  · rintro (⟨⟨sire, hs, hsource⟩, hlater⟩ | ⟨hstays, hold⟩)
    · refine .inl ⟨lt_of_settles? hs, ⟨sire, hs, hsource⟩, ?_⟩
      rintro ⟨hpq, hsettles⟩
      rcases hlater with hnone | hle
      · exact hsettles hnone
      · omega
    · exact .inr ⟨not_not.2 hstays, hold⟩

/-- In a sound world all tiles can be visited. -/
theorem exists_visited (hw : w.Sound) (tick : Tick) : ∃ v, w.Visited tick v := by
  obtain ⟨v, hfold, h⟩ := exists_sweep hw tick le_rfl
  refine ⟨v, ?_⟩
  constructor
  case carried => exact hfold
  case emptied =>
    intro q
    obtain ⟨stockpile, children, htile⟩ := h.akin q
    rw [htile]
    cases hs : (w.tile q).settles? with
    | none => simp only [Tile.visited, hs]
    | some sire =>
      simp only [Tile.visited, hs]
      rfl
  case founded =>
    intro q sire hs
    exact Tile.founded_visited (h.akin q) hs
  case kept =>
    intro q hs
    obtain ⟨stockpile, children, htile⟩ := h.akin q
    simp only [Tile.visited, hs] at htile
    exact ⟨stockpile, children, htile⟩
  case resource =>
    intro q hq
    rw [h.stockpile q hq, Stockpile.resource_book]
  case contributions =>
    intro q hq d
    rw [h.stockpile q hq, Stockpile.contributions_book]
  case harvested =>
    intro q hq
    rw [h.stockpile q hq, Stockpile.harvested_book]
  case children => exact fun q hq p => h.children hq p
  case rng => exact h.rng

end World

end Vivarium
