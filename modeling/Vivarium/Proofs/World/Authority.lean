import Vivarium.Proofs.Scalar.Ordered
import Vivarium.Proofs.World.Bystanders
import Vivarium.Proofs.World.History
/-!
# The authority of a frame

Whatever program a frame runs, it has power over its own cell only. To the neighbouring tiles it can
send: messages and resource to those that live, sires to any. What it sends comes behind or on top of
what is there, and no other tile is touched. Over the life and the lineage of its own cell a frame has no
power either.
-/
namespace Vivarium

variable {α : Type} [Scalar α]

/-- From one stockpile to the other by credits alone. -/
def Stockpile.Credited (s t : Stockpile α) : Prop :=
  ∃ credits : List (α × Direction), (∀ c ∈ credits, creditable c.1 = true) ∧
    t = credits.foldl (fun s c => s.contribute c.1 c.2) s

namespace Stockpile

variable {s t u : Stockpile α}

theorem Credited.refl (s : Stockpile α) : s.Credited s := ⟨[], by simp, rfl⟩

theorem Credited.trans (h : s.Credited t) (h' : t.Credited u) : s.Credited u := by
  obtain ⟨credits, hc, rfl⟩ := h
  obtain ⟨more, hm, rfl⟩ := h'
  refine ⟨credits ++ more, fun c hmem => ?_, (List.foldl_append ..).symm⟩
  cases List.mem_append.1 hmem with
  | inl hmem => exact hc c hmem
  | inr hmem => exact hm c hmem

/-- A contribution is booked as a credit or not at all. -/
theorem credited_contribute (s : Stockpile α) (amount : α) (d : Direction) :
    s.Credited (s.contribute amount d) := by
  by_cases hc : creditable amount = true
  · refine ⟨[(amount, d)], fun c hmem => ?_, rfl⟩
    rw [List.mem_singleton.1 hmem]
    exact hc
  · have he : s.contribute amount d = s := if_neg hc
    rw [he]
    exact .refl s

theorem harvested_contribute (s : Stockpile α) (amount : α) (d : Direction) :
    (s.contribute amount d).harvested = s.harvested := by
  unfold contribute
  split
  · rfl
  · rfl

theorem Credited.harvested (h : s.Credited t) : t.harvested = s.harvested := by
  obtain ⟨credits, -, rfl⟩ := h
  refine List.foldlRecOn credits _ (motive := fun t : Stockpile α => t.harvested = s.harvested) rfl ?_
  exact fun t ht c _ => (t.harvested_contribute c.1 c.2).trans ht

/-- What the balance has reached it does not fall below. -/
theorem Credited.not_lt [Scalar.Ordered α] (h : s.Credited t) : ¬t.resource < s.resource := by
  obtain ⟨credits, hc, rfl⟩ := h
  refine List.foldlRecOn credits _ (motive := fun t : Stockpile α => ¬t.resource < s.resource)
    (Scalar.Ordered.lt_irrefl _) fun t ht c hmem => ?_
  have hcredit := hc c hmem
  obtain ⟨hfinite, hpos⟩ := Bool.and_eq_true_iff.1 hcredit
  simp only [contribute, hcredit, if_true]
  exact Scalar.Ordered.not_add_lt hfinite (of_decide_eq_true hpos) ht

end Stockpile

/-- The second tile is the first, but for what was sent to it. -/
structure Tile.Receives (t u : Tile α) : Prop where
  live : u.live = t.live
  channel : u.channel = t.channel
  family : u.family = t.family
  mark : u.mark = t.mark
  controls : u.controls = t.controls
  harvested : u.stockpile.harvested = t.stockpile.harvested
  intake : t.intake <+: u.intake
  inboxes : ∀ d, t.inboxes.get d <+: u.inboxes.get d
  credited : t.stockpile.Credited u.stockpile
  dead : t.live = false → u.inboxes = t.inboxes ∧ u.stockpile = t.stockpile

/-- Occupant and lineage are the same. -/
structure Tile.Remains (t u : Tile α) : Prop where
  live : u.live = t.live
  family : u.family = t.family
  ids : u.channel.ids = t.channel.ids
  generations : u.channel.generations = t.channel.generations

namespace Tile

variable {t u v : Tile α}

theorem Receives.refl (t : Tile α) : t.Receives t where
  live := rfl
  channel := rfl
  family := rfl
  mark := rfl
  controls := rfl
  harvested := rfl
  intake := List.prefix_rfl
  inboxes _ := List.prefix_rfl
  credited := .refl _
  dead _ := ⟨rfl, rfl⟩

theorem Receives.trans (h : t.Receives u) (h' : u.Receives v) : t.Receives v where
  live := h'.live.trans h.live
  channel := h'.channel.trans h.channel
  family := h'.family.trans h.family
  mark := h'.mark.trans h.mark
  controls := h'.controls.trans h.controls
  harvested := h'.harvested.trans h.harvested
  intake := h.intake.trans h'.intake
  inboxes d := (h.inboxes d).trans (h'.inboxes d)
  credited := h.credited.trans h'.credited
  dead hl := by
    obtain ⟨hi, hs⟩ := h.dead hl
    obtain ⟨hi', hs'⟩ := h'.dead (h.live.trans hl)
    exact ⟨hi'.trans hi, hs'.trans hs⟩

omit [Scalar α] in
theorem Remains.refl (t : Tile α) : t.Remains t := ⟨rfl, rfl, rfl, rfl⟩

omit [Scalar α] in
theorem Remains.trans (h : t.Remains u) (h' : u.Remains v) : t.Remains v :=
  ⟨h'.live.trans h.live, h'.family.trans h.family, h'.ids.trans h.ids,
    h'.generations.trans h.generations⟩

/-- A sire comes behind those that wait. -/
theorem receives_sire (t : Tile α) (sire : Sire α FrameOp) :
    t.Receives { t with intake := t.intake ++ [sire] } :=
  { Receives.refl t with intake := List.prefix_append _ _ }

/-- A message to a tile that lives comes behind those that wait. -/
theorem receives_message (hl : t.live = true) (d : Direction) (m : Message α) :
    t.Receives { t with inboxes := t.inboxes.modify d (· ++ [m]) } := by
  refine { Receives.refl t with inboxes := fun e => ?_, dead := fun h => ?_ }
  · by_cases he : e = d
    · rw [he]
      simp only [PerFacing.get_modify_same]
      exact List.prefix_append _ _
    · simp only [PerFacing.get_modify_other _ _ he]
      exact List.prefix_rfl
  · cases hl.symm.trans h

/-- Resource for a tile that lives is credited to it. -/
theorem receives_credit (hl : t.live = true) (amount : α) (d : Direction) :
    t.Receives { t with stockpile := t.stockpile.contribute amount d } := by
  refine { Receives.refl t with harvested := ?_, credited := ?_, dead := fun h => ?_ }
  · exact t.stockpile.harvested_contribute amount d
  · exact t.stockpile.credited_contribute amount d
  · cases hl.symm.trans h

end Tile

namespace World

variable {w v w' : World α} {pos : Nat}

/-- What a frame at `pos` may make of a world. -/
structure Confined (pos : Nat) (w v : World α) : Prop where
  stays : w.Stays v
  own : (w.tile pos).Remains (v.tile pos)
  others : ∀ q, q ≠ pos → (w.tile q).Receives (v.tile q)
  beyond : ∀ q, q ≠ pos → (∀ d, q ≠ w.neighbor pos d) → v.tile q = w.tile q

theorem Confined.refl (pos : Nat) (w : World α) : Confined pos w w :=
  ⟨.refl w, .refl _, fun _ _ => .refl _, fun _ _ _ => rfl⟩

theorem Confined.trans (h : Confined pos w v) (h' : Confined pos v w') : Confined pos w w' := by
  refine ⟨h.stays.trans h'.stays, h.own.trans h'.own, fun q hq => ?_, fun q hq hfar => ?_⟩
  · exact (h.others q hq).trans (h'.others q hq)
  · have hfar' (d : Direction) : q ≠ v.neighbor pos d := by
      rw [neighbor, h.stays.grid]
      exact hfar d
    exact (h'.beyond q hq hfar').trans (h.beyond q hq hfar)

/-- A change of the own tile that spares its occupant. -/
theorem confined_own (w : World α) {change : Tile α → Tile α} (h : ∀ t : Tile α, t.Remains (change t)) :
    Confined pos w (w.modify pos change) := by
  refine ⟨stays_modify w pos change, ?_, fun q hq => ?_, fun q hq _ => ?_⟩
  · rw [tile_modify]
    split
    · exact h _
    · exact .refl _
  · rw [tile_modify_other w change hq]
    exact .refl _
  · exact tile_modify_other w change hq

/-- A change of a neighbouring tile by which it receives something. On a narrow grid the neighbour may
be the own tile. -/
theorem confined_neighbor (w : World α) (dir : Direction) {change : Tile α → Tile α}
    (h : ∀ t : Tile α, t.Remains (change t))
    (hr : (w.tile (w.neighbor pos dir)).Receives (change (w.tile (w.neighbor pos dir)))) :
    Confined pos w (w.modify (w.neighbor pos dir) change) := by
  refine ⟨stays_modify w _ change, ?_, fun q _ => ?_, fun q _ hfar => ?_⟩
  · rw [tile_modify]
    split
    · exact h _
    · exact .refl _
  · rw [tile_modify]
    split
    · next hq =>
      rw [hq.1]
      exact hr
    · exact .refl _
  · exact tile_modify_other w change (hfar dir)

/-- A frame may spend what its own tile has. -/
theorem confined_debit (w : World α) (pos : Nat) (f : Stockpile α → Stockpile α) :
    Confined pos w (w.modifyStockpile pos f) :=
  w.confined_own fun _ => ⟨rfl, rfl, rfl, rfl⟩

theorem confined_sendResource (w : World α) (pos : Nat) (dir : Direction) (fraction : α) :
    Confined pos w (w.sendResource pos dir fraction) := by
  by_cases hl : (w.tile (w.neighbor pos dir)).live = true
  · simp only [sendResource, hl, if_true]
    refine (confined_debit w pos _).trans (confined_neighbor _ dir ?_ ?_)
    · exact fun _ => ⟨rfl, rfl, rfl, rfl⟩
    · apply Tile.receives_credit
      rw [← hl]
      exact tile_modify_congr (·.live) w pos _ fun _ => rfl
  · simp only [sendResource, hl]
    exact .refl pos w

theorem confined_tryReproduce (w : World α) (pos : Nat) (facing : Direction) (relative : α)
    (level : Nat) (program : Program FrameOp) :
    Confined pos w (w.tryReproduce pos facing relative level program).2 := by
  unfold tryReproduce
  cases w.reproductionLevel? pos facing level with
  | none => exact .refl pos w
  | some used =>
    refine (confined_debit w pos _).trans (confined_neighbor _ (facing.turn relative) ?_ ?_)
    · exact fun _ => ⟨rfl, rfl, rfl, rfl⟩
    · exact Tile.receives_sire _ _

/-- Whatever an instruction does, it is confined. -/
theorem Effect.confined {facing : Direction} {program : Program FrameOp}
    (h : Effect pos facing program w v) : Confined pos w v := by
  cases h with
  | mailOut dir m hl =>
    apply confined_neighbor w dir
    · exact fun _ => ⟨rfl, rfl, rfl, rfl⟩
    · exact Tile.receives_message hl _ m
  | send dir fraction => exact confined_sendResource w pos dir fraction
  | reproduce relative level => exact confined_tryReproduce w pos facing relative level _
  | _ => exact confined_own w fun _ => ⟨rfl, rfl, rfl, rfl⟩

end World

namespace Frame

/-- Whatever a pass does, it is confined. -/
theorem confined_execute (f : Frame α) (w : World α) : World.Confined f.pos w (f.execute w).2 :=
  f.execute_induction (I := World.Confined f.pos w) (fun _ _ he h => h.trans he.confined) w
    (.refl f.pos w)

theorem of_stepOnce_ok {f f' : Frame α} {w w' : World α} (h : f.stepOnce w = .ok (f', w')) :
    f.execute w = (f', w') := by
  unfold stepOnce at h
  split at h
  · exact Except.ok.inj h
  · cases h

/-- The authority of a frame. Whatever the program, the threads and the world, a step of a frame leaves
every other tile its occupant, lineage, mark, harvests and controls. Sires and messages come behind those
that wait there, the balance does not fall, and it is neighbours only that anything comes to, messages and
resource only if they live. The occupant and the lineage of the own tile stay as well. -/
theorem confined_stepOnce [Scalar.Ordered α] {f f' : Frame α} {w w' : World α}
    (h : f.stepOnce w = .ok (f', w')) :
    (w.tile f.pos).Remains (w'.tile f.pos) ∧
    ∀ q, q ≠ f.pos →
      (w.tile q).Receives (w'.tile q) ∧
      ¬(w'.tile q).stockpile.resource < (w.tile q).stockpile.resource ∧
      ((∀ d, q ≠ w.neighbor f.pos d) → w'.tile q = w.tile q) := by
  have hc := f.confined_execute w
  rw [of_stepOnce_ok h] at hc
  refine ⟨hc.own, fun q hq => ?_⟩
  have hr := hc.others q hq
  exact ⟨hr, hr.credited.not_lt, hc.beyond q hq⟩

def ring : Config Float :=
  { Config.withLevels 2 10 with gridWidth := 4, gridHeight := 1 }

def settled : List (Deed Float) := [.found 0 .zero, .found 1 .zero, .grow 0 8]

/-- One function gives half of the resource away, the other sends word to every neighbour. -/
def generosity : Program FrameOp :=
  ⟨[⟨.new 0, [.bare (.ext (.plain .sendBigFracResource))]⟩,
    ⟨.new 7, [.bare (.ext (.plain .bcstMsgExternal))]⟩]⟩

def donor : Frame Float :=
  ((build 0 .right ring (.ofSeed 0)).setProgram generosity).excite [.new 0, .new 7]

/-- The second tile gets resource and word, the empty fourth nothing, and the third is out of reach. -/
theorem confined_stepOnce_donor : ∃ w₀ ids w f' w',
    World.new ring = .ok w₀ ∧ World.History w₀ settled ids w ∧ donor.stepOnce w = .ok (f', w') ∧
    (w.tile 1).stockpile.resource < (w'.tile 1).stockpile.resource ∧
    ((w'.tile 1).inboxes.get .left).length = 1 ∧
    (w'.tile 3).inboxes = (w.tile 3).inboxes ∧ w'.tile 2 = w.tile 2 := by
  have hrun : World.leadsTo ring settled (fun _ w =>
      decide ((w.tile 1).stockpile.resource < ((donor.execute w).2.tile 1).stockpile.resource) &&
        decide ((((donor.execute w).2.tile 1).inboxes.get .left).length = 1) &&
          !(w.tile 3).live && decide (∀ d, 2 ≠ w.neighbor donor.pos d)) = true := by
    decide +kernel
  obtain ⟨w₀, ids, w, h₀, hw, ht⟩ := World.exists_history hrun
  simp only [Bool.and_eq_true, decide_eq_true_eq, Bool.not_eq_true'] at ht
  obtain ⟨⟨⟨hgain, hword⟩, hdead⟩, hfar⟩ := ht
  have hprogram : donor.hasProgram = true := by decide +kernel
  have hstep : donor.stepOnce w = .ok (donor.execute w) := by rw [stepOnce, if_pos hprogram]
  generalize donor.execute w = result at hgain hword hstep
  obtain ⟨-, hq⟩ := confined_stepOnce (show donor.stepOnce w = .ok (result.1, result.2) from hstep)
  refine ⟨w₀, ids, w, result.1, result.2, h₀, hw, hstep, hgain, hword, ?_, ?_⟩
  · exact ((hq 3 (by decide)).1.dead hdead).1
  · exact (hq 2 (by decide)).2.2 hfar

end Frame

end Vivarium
