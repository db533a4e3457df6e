import Vivarium.Proofs.Scalar.Numeric
import Vivarium.Proofs.World.Tenure
/-!
# The threshold in full

Balances stay numbers, and reserves are finite and not negative, whatever is done to a world. So a balance
that covers the threshold and a reserve covers the threshold alone, and a reproduction that goes through
debits no less.
-/
namespace Vivarium

variable {α : Type} [Scalar α] [Scalar.Numeric α]

/-! ## Amounts that can be debited -/

namespace Stockpile

variable {s : Stockpile α} {amount : α}

/-- However much there is, only a finite amount is taken. -/
theorem finite_available (h : Scalar.IsNumber s.resource) (amount : α) :
    Scalar.isFinite (s.available amount) = true :=
  Scalar.finite_least (Scalar.finite_nonneg_asked amount).1 (Scalar.number_positivePart h)
    (Scalar.nonneg_positivePart _)

theorem nonneg_available (s : Stockpile α) (amount : α) : 0 ≤ s.available amount := by
  have hasked := (Scalar.finite_nonneg_asked amount).2
  unfold available
  generalize (if Scalar.isFinite amount then Scalar.positivePart amount else 0) = asked at hasked ⊢
  unfold Scalar.least
  split
  · exact hasked
  · exact Scalar.nonneg_positivePart _

/-- What is there is taken in full. -/
theorem available_of_le (hf : Scalar.isFinite amount = true) (h0 : 0 ≤ amount)
    (h : amount ≤ s.resource) : s.available amount = amount := by
  unfold available
  rw [if_pos hf, Scalar.positivePart_of_nonneg h0,
    Scalar.positivePart_of_nonneg (Scalar.Numeric.le_trans h0 h)]
  exact if_pos h

theorem number_contribute (h : Scalar.IsNumber s.resource) (amount : α) (d : Direction) :
    Scalar.IsNumber (s.contribute amount d).resource := by
  unfold contribute
  split
  · next hc => exact Scalar.Numeric.number_add h (Bool.and_eq_true_iff.1 hc).1
  · exact h

theorem number_grow (h : Scalar.IsNumber s.resource) (amount : α) :
    Scalar.IsNumber (s.grow amount).resource := by
  unfold grow
  split
  · next hf => exact Scalar.Numeric.number_add h hf
  · exact h

end Stockpile

/-! ## Tiles -/

/-- The balance is a number, and every reserve can be added to the threshold. -/
structure Tile.Metered (t : Tile α) : Prop where
  resource : Scalar.IsNumber t.stockpile.resource
  finite : ∀ d, Scalar.isFinite (t.controls.get d).reserve.amount = true
  nonneg : ∀ d, 0 ≤ (t.controls.get d).reserve.amount

namespace Tile

variable {t u : Tile α}

theorem metered_barren (nlev : Nat) (levels : List Level) : (barren nlev levels : Tile α).Metered := by
  have hreserve (d : Direction) :
      ((PerFacing.replicate (Controls.new nlev : Controls α)).get d).reserve.amount = 0 := by
    rw [PerFacing.get_replicate]
    rfl
  refine ⟨Scalar.number_zero, fun d => ?_, fun d => ?_⟩
  · exact (congrArg Scalar.isFinite (hreserve d)).trans Scalar.Numeric.finite_zero
  · exact (hreserve d).symm ▸ Scalar.number_zero

/-- Controls that are tended keep reserves within bounds. -/
theorem Metered.controls (h : t.Metered) (d : Direction) {change : Controls α → Controls α}
    (hc : ∀ c : Controls α, c.Tended (change c)) :
    ({ t with controls := t.controls.modify d change } : Tile α).Metered := by
  have hreserve (e : Direction) :
      Scalar.isFinite ((t.controls.modify d change).get e).reserve.amount = true ∧
        0 ≤ ((t.controls.modify d change).get e).reserve.amount := by
    by_cases he : e = d
    · rw [he, PerFacing.get_modify_same]
      rcases (hc (t.controls.get d)).reserve with hr | hr | ⟨amount, duration, hr⟩
      · rw [hr]
        exact ⟨h.finite d, h.nonneg d⟩
      · rw [hr]
        exact ⟨Scalar.Numeric.finite_zero, Scalar.number_zero⟩
      · rw [hr]
        exact Scalar.finite_nonneg_asked amount
    · rw [PerFacing.get_modify_other _ _ he]
      exact ⟨h.finite e, h.nonneg e⟩
  exact ⟨h.resource, fun e => (hreserve e).1, fun e => (hreserve e).2⟩

/-- No change makes of a balance what is not a number. -/
theorem Change.number (hu : t.Change u) (h : Scalar.IsNumber t.stockpile.resource) :
    Scalar.IsNumber u.stockpile.resource := by
  cases hu with
  | upkeep hu =>
    cases hu with
    | request amount => exact Scalar.Numeric.number_sub h (Stockpile.finite_available h amount)
    | contribute amount d => exact Stockpile.number_contribute h amount d
    | grow amount => exact Stockpile.number_grow h amount
    | _ => exact h
  | _ => exact h

theorem Changed.number (hu : t.Changed u) (h : Scalar.IsNumber t.stockpile.resource) :
    Scalar.IsNumber u.stockpile.resource := by
  induction hu with
  | refl => exact h
  | tail _ hu ih => exact hu.number ih

theorem Metered.upkeep (h : t.Metered) (hu : t.Upkeep u) : u.Metered := by
  have hnumber := Change.number (.upkeep hu) h.resource
  cases hu with
  | controls d change hc => exact h.controls d hc
  | _ => exact ⟨hnumber, h.finite, h.nonneg⟩

theorem Metered.change (h : t.Metered) (hu : t.Change u) : u.Metered := by
  cases hu with
  | upkeep hu => exact h.upkeep hu
  | tidy live =>
    have hreserve (d : Direction) : ((t.controls.map Controls.reset).get d).reserve.amount = 0 := by
      rw [PerFacing.get_map]
      rfl
    refine ⟨h.resource, fun d => ?_, fun d => ?_⟩
    · exact (congrArg Scalar.isFinite (hreserve d)).trans Scalar.Numeric.finite_zero
    · exact (hreserve d).symm ▸ Scalar.number_zero
  | _ => exact ⟨h.resource, h.finite, h.nonneg⟩

end Tile

/-! ## Worlds -/

/-- A threshold that is negative or not finite is not valid. -/
theorem Config.threshold_of_validate {config : Config α} (h : config.validate = .ok ()) :
    Scalar.isFinite config.repThresh = true ∧ 0 ≤ config.repThresh := by
  have hv := validate_eq_ok_iff.1 h
  have hnumber := Scalar.Numeric.number_of_finite hv.finite
  exact ⟨hv.finite, Scalar.Numeric.le_of_not_lt Scalar.number_zero hnumber hv.nonneg⟩

namespace World

variable {config : Config α} {w : World α}

/-- In every world that an owner can bring about, balances are numbers. -/
theorem Run.metered (h : Run config w) (q : Nat) : (w.tile q).Metered :=
  h.tiles (fun _ _ hc ht => ht.change hc) (Tile.metered_barren _ _) q

/-- A balance that covers the threshold and the reserve pays the threshold in full. -/
theorem Run.available_eq (h : Run config w) {pos : Nat} {facing : Direction}
    (hc : w.canAfford pos facing = true) :
    (w.tile pos).stockpile.available w.config.repThresh = config.repThresh := by
  obtain ⟨hfinite, hnonneg⟩ := Config.threshold_of_validate h.validate
  have ht := h.metered pos
  rw [← h.shaped.config_eq] at hfinite hnonneg ⊢
  have hbar := Scalar.Numeric.le_add hfinite (ht.finite facing) (ht.nonneg facing)
  have hnumber := Scalar.Numeric.number_add (Scalar.Numeric.number_of_finite hfinite) (ht.finite facing)
  have hnot : ¬(w.tile pos).stockpile.resource <
      w.config.repThresh + (w.controls pos facing).reserve.amount := by
    simpa [canAfford] using hc
  have hcovers := Scalar.Numeric.le_of_not_lt hnumber ht.resource hnot
  exact Stockpile.available_of_le hfinite hnonneg (Scalar.Numeric.le_trans hbar hcovers)

/-! ## Endowments -/

/-- The balances are numbers, and the sires that wait carry finite amounts that are not negative. -/
structure Endowed (w : World α) : Prop where
  number : ∀ q, Scalar.IsNumber (w.tile q).stockpile.resource
  finite : ∀ q, ∀ sire ∈ (w.tile q).intake, Scalar.isFinite sire.endowment = true
  nonneg : ∀ q, ∀ sire ∈ (w.tile q).intake, 0 ≤ sire.endowment

/-- Steps keep balances numbers. -/
theorem Step.number {v : World α} {news : List ChannelId} {gains : List α}
    (h : w.Step news gains v) (hw : w.Sound)
    (hn : ∀ q, Scalar.IsNumber (w.tile q).stockpile.resource) (q : Nat) :
    Scalar.IsNumber (v.tile q).stockpile.resource := by
  cases h with
  | quiet pos change hc =>
    rw [w.tile_modify_congr (·.stockpile.resource) pos q fun t => (hc t).resource]
    exact hn q
  | @forget pos _ => exact (w.changed_modify pos Tile.changed_forget q).1.number (hn q)
  | send dir fraction _ => exact (upkept_sendResource w _ dir fraction q).changed.number (hn q)
  | reproduce facing relative level program _ =>
    exact (upkept_tryReproduce w _ facing relative level program q).changed.number (hn q)
  | @refund pos n v _ hr =>
    obtain rfl := of_refundIntake_eq_ok hr
    exact (upkept_credits w pos _ q).changed.number (hn q)
  | @found pos tick hp =>
    rw [tile_found hp]
    split
    · exact hn q
    · exact hn q
  | settle hp _ hs => exact (changed_settleSire hw hp hs q).1.number (hn q)
  | grow amount _ =>
    exact Tile.Changed.number (upkept_modify (.single (.grow amount)) q).changed (hn q)

/-- Steps keep a world endowed. -/
theorem Endowed.step {v : World α} {news : List ChannelId} {gains : List α} (h : w.Endowed)
    (hw : w.Sound) (hs : w.Step news gains v) : v.Endowed := by
  have hqueued : ∀ q, ∀ sire ∈ (v.tile q).intake,
      Scalar.isFinite sire.endowment = true ∧ 0 ≤ sire.endowment := by
    intro q sire hsire
    rcases hs.mem_intake hsire with hwaits | ⟨-, hamount⟩
    · exact ⟨h.finite q sire hwaits, h.nonneg q sire hwaits⟩
    · rw [hamount]
      exact ⟨Stockpile.finite_available (h.number _) _, Stockpile.nonneg_available _ _⟩
  exact ⟨hs.number hw h.number, fun q sire hq => (hqueued q sire hq).1,
    fun q sire hq => (hqueued q sire hq).2⟩

theorem endowed_history {w₀ : World α} {deeds : List (Deed α)} {ids : List ChannelId}
    (h₀ : World.new config = .ok w₀) (hw : History w₀ deeds ids w) : w.Endowed := by
  refine (Kept.history (I := fun _ _ v => v.Sound ∧ v.Endowed) ?_ hw ⟨sound_new h₀, ?_⟩).2
  · intro ids gains v news more v' hv hs
    exact ⟨hv.1.step hs, hv.2.step hv.1 hs⟩
  · have hempty (q : Nat) : (w₀.tile q).intake = [] := by
      rw [tile_new h₀]
      rfl
    refine ⟨fun q => ?_, fun q sire hs => ?_, fun q sire hs => ?_⟩
    · rw [tile_new h₀]
      exact Scalar.number_zero
    · rw [hempty] at hs
      cases hs
    · rw [hempty] at hs
      cases hs

end World

end Vivarium
