import Vivarium.Proofs.Affinity.History
import Vivarium.Proofs.Countdown
/-!
# How long regulators stand

The regulator of an entry is told by the last thing that put it there and the decays since: it stands until
its countdown has run out, and a countdown that starts at zero still waits for the next decay. What is done
under other handles has no part in it, and neither has a value that is not finite.
-/
namespace Vivarium

variable {α V : Type} [Scalar α]

namespace Regulator

/-- What some decays leave of a regulator. -/
def faded (w : Regulator α) (decays : Nat) : Regulator α :=
  if decays < max w.countdown.toNat 1 then ⟨w.value, .ofNat (w.countdown.toNat - decays)⟩ else neutral

variable (w : Regulator α) (k : Nat)

/-- The value stands until the countdown has run out, and is zero from then on. -/
theorem faded_eq : w.faded k = ⟨HalfWord.hold w.countdown k w.value 0, HalfWord.left w.countdown k⟩ := by
  unfold faded HalfWord.hold HalfWord.left
  split
  · rfl
  · next h =>
    have hzero : w.countdown.toNat - k = 0 := by omega
    rw [hzero]
    rfl

theorem faded_zero : w.faded 0 = w := by rw [faded_eq, HalfWord.hold_zero, HalfWord.left_zero]

theorem decay_faded : (w.faded k).decay = w.faded (k + 1) := by
  rw [faded_eq, faded_eq]
  change (⟨if HalfWord.pred (HalfWord.left w.countdown k) = 0 then 0
    else HalfWord.hold w.countdown k w.value 0, HalfWord.pred (HalfWord.left w.countdown k)⟩ :
      Regulator α) = _
  rw [HalfWord.pred_left, HalfWord.hold_succ]

/-- Only a finite value is stored, and with it the countdown starts again. -/
theorem set_if (value : α) (duration : UInt32) (hit : Prop) [Decidable hit] :
    (if hit ∧ Scalar.isFinite value then some ⟨value, duration⟩ else none) =
        some (if hit then w.set value duration else w) ∨
      (if hit ∧ Scalar.isFinite value then some (⟨value, duration⟩ : Regulator α) else none) = none ∧
        (if hit then w.set value duration else w) = w := by
  unfold set
  by_cases hhit : hit
  · by_cases hfinite : Scalar.isFinite value
    · exact .inl (by rw [if_pos ⟨hhit, hfinite⟩, if_pos hhit, if_pos hfinite])
    · exact .inr ⟨if_neg fun hboth => hfinite hboth.2, by rw [if_pos hhit, if_neg hfinite]⟩
  · exact .inr ⟨if_neg fun hboth => hhit hboth.1, if_neg hhit⟩

end Regulator

namespace Registry

/-! ## What is done to a registry -/

/-- The handle of an act may be one that is not in the registry. -/
inductive Act (α V : Type) where
  | insert (tag : Tag) (value : V)
  | erase (h : Handle)
  | clear
  | adjust (h : Handle) (delta : α) (duration : UInt32)
  | set (h : Handle) (value : α) (duration : UInt32)
  | decay
  | reset

namespace Act

def isDecay : Act α V → Bool
  | decay => true
  | _ => false

def Spares (h : Handle) : Act α V → Prop
  | insert _ _ => True
  | erase g | adjust g _ _ | set g _ _ => g ≠ h
  | clear | decay | reset => False

def apply (r : Registry α V) : Act α V → Registry α V
  | insert tag value => (r.insert tag value).2
  | erase h => r.erase h
  | clear => r.clear
  | adjust h delta duration => (r.adjustRegulator? h delta duration).getD r
  | set h value duration => (r.setRegulator? h value duration).getD r
  | decay => r.decayRegulators
  | reset => r.resetRegulators

/-- The regulator that an act puts under a handle: the neutral one when the entry is inserted and when all are
reset, and what the regulator is set or shifted to if that is finite. -/
def put? (r : Registry α V) (h : Handle) : Act α V → Option (Regulator α)
  | insert _ _ => if r.next = h then some .neutral else none
  | set g value duration => if g = h ∧ Scalar.isFinite value then some ⟨value, duration⟩ else none
  | adjust g delta duration => (r.regulator? h).bind fun old =>
    if g = h ∧ Scalar.isFinite (old.value + delta) then some ⟨old.value + delta, duration⟩ else none
  | reset => some .neutral
  | erase _ | clear | decay => none

end Act

def after (r : Registry α V) (acts : List (Act α V)) : Registry α V := acts.foldl Act.apply r

/-- None of the acts puts a regulator under the handle. -/
def Quiet (h : Handle) : Registry α V → List (Act α V) → Prop
  | _, [] => True
  | r, a :: later => a.put? r h = none ∧ Quiet h (a.apply r) later

variable {r : Registry α V} {a : Act α V} {acts later : List (Act α V)} {g h : Handle}
  {reg w : Regulator α}

/-! ## One act -/

omit [Scalar α] in
/-- A change under one handle shows under that handle only. -/
theorem regulator?_modify (f : Regulator α → Regulator α) (g h : Handle) :
    ((r.modify? g fun e => { e with regulator := f e.regulator }).getD r).regulator? h =
      (r.regulator? h).map fun old => if g = h then f old else old := by
  unfold modify?
  split
  · refine regulator?_map (fun e => ?_) fun e _ he => ?_
    · split
      · rfl
      · rfl
    · simp only [he, beq_iff_eq, eq_comm (a := h), apply_ite Entry.regulator]
  · next hnone =>
    rw [Option.getD_none]
    by_cases hg : g = h
    · rw [hg, Bool.not_eq_true, Option.isSome_eq_false_iff, Option.isNone_iff_eq_none] at hnone
      rw [regulator?, hnone]
      rfl
    · simp only [if_neg hg, Option.map_id']

theorem regulator?_insert (hr : r.Sane) (tag : Tag) (value : V) (h : Handle) :
    (r.insert tag value).2.regulator? h = if r.next = h then some .neutral else r.regulator? h := by
  have hentry : Registry.entry? (r.insert tag value).2 h =
      (r.entry? h).or (if r.next = h then some ⟨r.next, tag, value, .neutral⟩ else none) := by
    unfold Registry.entry? insert
    rw [List.find?_append, List.find?_singleton]
    simp only [beq_iff_eq]
  rw [regulator?, hentry]
  split
  · next hnext =>
    rw [← hnext, hr.entry?_next]
    rfl
  · rw [Option.or_none]
    rfl

omit [Scalar α] in
theorem regulator?_erase (g h : Handle) :
    (r.erase g).regulator? h = if g = h then none else r.regulator? h := by
  have hentry : Registry.entry? (r.erase g) h = if g = h then none else r.entry? h := by
    unfold Registry.entry? erase
    rw [List.find?_filter]
    split
    · next hg =>
      rw [List.find?_eq_none]
      intro e _ he
      simp [hg] at he
    · next hg =>
      congr 1
      funext e
      by_cases he : e.handle = h
      · simp [he, Ne.symm hg]
      · simp [he]
  rw [regulator?, hentry]
  split
  · rfl
  · rfl

theorem regulator?_decayRegulators (h : Handle) :
    r.decayRegulators.regulator? h = (r.regulator? h).map .decay :=
  regulator?_map (fun _ => rfl) fun _ _ _ => rfl

theorem regulator?_resetRegulators (h : Handle) :
    r.resetRegulators.regulator? h = (r.regulator? h).map fun _ => .neutral :=
  regulator?_map (fun _ => rfl) fun _ _ _ => rfl

/-- A regulator is what was put there last, or it has decayed, or it is as it was. -/
theorem of_regulator?_apply (hr : r.Sane) (hreg : (a.apply r).regulator? h = some reg) :
    a.put? r h = some reg ∨
      a.put? r h = none ∧ ∃ old, r.regulator? h = some old ∧ reg = if a.isDecay then old.decay else old := by
  cases a with
  | insert tag value =>
    replace hreg := (regulator?_insert hr tag value h).symm.trans hreg
    by_cases hnext : r.next = h
    · rw [if_pos hnext] at hreg
      exact .inl ((if_pos hnext).trans hreg)
    · rw [if_neg hnext] at hreg
      exact .inr ⟨if_neg hnext, reg, hreg, rfl⟩
  | erase g =>
    replace hreg := (regulator?_erase g h).symm.trans hreg
    split at hreg
    · cases hreg
    · exact .inr ⟨rfl, reg, hreg, rfl⟩
  | clear => cases hreg
  | adjust g delta duration =>
    replace hreg := (regulator?_modify (·.adjust delta duration) g h).symm.trans hreg
    obtain ⟨old, hold, rfl⟩ := Option.map_eq_some_iff.1 hreg
    rw [Act.put?, hold, Option.bind_some]
    exact (old.set_if _ duration (g = h)).imp id fun ⟨hnone, heq⟩ => ⟨hnone, old, rfl, heq⟩
  | set g value duration =>
    replace hreg := (regulator?_modify (·.set value duration) g h).symm.trans hreg
    obtain ⟨old, hold, rfl⟩ := Option.map_eq_some_iff.1 hreg
    exact (old.set_if value duration (g = h)).imp id fun ⟨hnone, heq⟩ => ⟨hnone, old, hold, heq⟩
  | decay =>
    replace hreg := (regulator?_decayRegulators h).symm.trans hreg
    obtain ⟨old, hold, rfl⟩ := Option.map_eq_some_iff.1 hreg
    exact .inr ⟨rfl, old, hold, rfl⟩
  | reset =>
    replace hreg := (regulator?_resetRegulators h).symm.trans hreg
    obtain ⟨old, -, rfl⟩ := Option.map_eq_some_iff.1 hreg
    exact .inl rfl

/-- What is done under other handles is not seen under this one. -/
theorem regulator?_apply_of_spares (hr : r.Sane) (hspares : a.Spares h)
    (hlive : r.regulator? h = some reg) : (a.apply r).regulator? h = some reg := by
  cases a with
  | insert tag value =>
    refine (regulator?_insert hr tag value h).trans ((if_neg ?_).trans hlive)
    rintro rfl
    rw [regulator?, hr.entry?_next] at hlive
    cases hlive
  | erase g => exact (regulator?_erase g h).trans ((if_neg hspares).trans hlive)
  | adjust g delta duration =>
    refine (regulator?_modify (·.adjust delta duration) g h).trans ?_
    rw [hlive, Option.map_some, if_neg hspares]
  | set g value duration =>
    refine (regulator?_modify (·.set value duration) g h).trans ?_
    rw [hlive, Option.map_some, if_neg hspares]
  | clear | decay | reset => exact hspares.elim

/-- A change that leaves the regulator under the handle as it is leaves all as it is, though the entry was
found. -/
theorem Sane.modify?_eq_self (hr : r.Sane) {f : Regulator α → Regulator α}
    (hlive : r.regulator? h = some reg) (hf : f reg = reg) :
    r.modify? h (fun e => { e with regulator := f e.regulator }) = some r := by
  obtain ⟨e, he, rfl⟩ := Option.map_eq_some_iff.1 hlive
  have hentries : r.entries.map (fun d =>
      if d.handle == h then { d with regulator := f d.regulator } else d) = r.entries := by
    refine (List.map_congr_left fun d hd => ?_).trans (List.map_id _)
    split
    · next hhandle =>
      rw [← beq_iff_eq.1 hhandle, entry?_eq_some hr.nodup_handles hd] at he
      obtain rfl := Option.some.inj he
      rw [hf]
      rfl
    · rfl
  rw [Registry.modify?, he, hentries]
  rfl

/-! ## All acts -/

theorem after_append (r : Registry α V) (before later : List (Act α V)) :
    after r (before ++ later) = after (after r before) later := List.foldl_append

theorem Reached.apply (hr : r.Reached) (a : Act α V) : (a.apply r).Reached := by
  cases a with
  | insert tag value => exact hr.insert tag value
  | erase h => exact hr.erase h
  | clear => exact hr.clear
  | adjust h delta duration =>
    change ((r.adjustRegulator? h delta duration).getD r).Reached
    cases hs : r.adjustRegulator? h delta duration with
    | none => exact hr
    | some s => exact hr.adjustRegulator hs
  | set h value duration =>
    change ((r.setRegulator? h value duration).getD r).Reached
    cases hs : r.setRegulator? h value duration with
    | none => exact hr
    | some s => exact hr.setRegulator hs
  | decay => exact hr.decayRegulators
  | reset => exact hr.resetRegulators

theorem Reached.after (hr : r.Reached) (acts : List (Act α V)) : (after r acts).Reached := by
  induction acts generalizing r with
  | nil => exact hr
  | cons a later ih => exact ih (hr.apply a)

variable [Scalar.Numeric α]

/-- While nothing else is put under a handle, a regulator there fades with the decays. -/
theorem regulator?_after (hr : r.Reached) {k : Nat} (hquiet : Quiet h r later)
    (hfaded : ∀ old, r.regulator? h = some old → old = w.faded k)
    (hreg : (after r later).regulator? h = some reg) : reg = w.faded (k + later.countP Act.isDecay) := by
  induction later generalizing r k with
  | nil => exact hfaded reg hreg
  | cons a later ih =>
    obtain ⟨hnone, hquiet⟩ := hquiet
    have hstep : ∀ old, (a.apply r).regulator? h = some old →
        old = w.faded (k + if a.isDecay then 1 else 0) := by
      intro reg hreg
      rcases of_regulator?_apply hr.sane hreg with hput | ⟨-, old, hold, rfl⟩
      · rw [hnone] at hput
        cases hput
      · rw [hfaded old hold]
        split
        · exact w.decay_faded k
        · rfl
    rw [List.countP_cons, Nat.add_comm (List.countP _ _), ← Nat.add_assoc]
    exact ih (hr.apply a) hquiet hstep hreg

/-- Regulators stay finite, and what was put there last tells the rest: a regulator that was set or shifted
stands for as many decays as it was given, and for one if it was given none, and then it is neutral. What is
not finite is ignored, though the entry is found, and what is done to one entry is not seen by another. -/
theorem regulators_expire (hr : r.Reached) (acts : List (Act α V)) :
    let s := after r acts
    (∀ e ∈ s.entries, Scalar.isFinite e.regulator.value = true) ∧
      (∀ before a later h w, acts = before ++ a :: later → a.put? (after r before) h = some w →
        Quiet h (after r (before ++ [a])) later → ∀ reg, s.regulator? h = some reg →
          reg = w.faded (later.countP Act.isDecay)) ∧
      (∀ h old reg, r.regulator? h = some old → Quiet h r acts → s.regulator? h = some reg →
        reg = old.faded (acts.countP Act.isDecay)) ∧
      ∀ h reg, s.regulator? h = some reg →
        (∀ value duration, ¬Scalar.isFinite value → s.setRegulator? h value duration = some s) ∧
        (∀ delta duration, ¬Scalar.isFinite (reg.value + delta) →
          s.adjustRegulator? h delta duration = some s) ∧
        ∀ a : Act α V, a.Spares h → (a.apply s).regulator? h = some reg := by
  have hs := (hr.after acts).sane
  refine ⟨hs.finite, ?_, ?_, fun h reg hlive => ⟨?_, ?_, ?_⟩⟩
  · rintro before a later h w rfl hput hquiet reg hreg
    rw [List.append_cons, after_append] at hreg
    have hstart (old : Regulator α) (hold : (after r (before ++ [a])).regulator? h = some old) :
        old = w.faded 0 := by
      rw [after_append] at hold
      rcases of_regulator?_apply (hr.after before).sane hold with hput' | ⟨hnone, -⟩
      · rw [hput] at hput'
        rw [Regulator.faded_zero, Option.some.inj hput']
      · rw [hput] at hnone
        cases hnone
    have hfaded := regulator?_after (hr.after _) hquiet hstart hreg
    rwa [Nat.zero_add] at hfaded
  · intro h old reg hold hquiet hreg
    have hfaded := regulator?_after (w := old) (k := 0) hr hquiet (fun reg hreg => ?_) hreg
    · rwa [Nat.zero_add] at hfaded
    · rw [hold] at hreg
      rw [Regulator.faded_zero, Option.some.inj hreg]
  · exact fun value duration hvalue => hs.modify?_eq_self hlive (if_neg hvalue)
  · exact fun delta duration hsum => hs.modify?_eq_self (f := (·.adjust delta duration)) hlive (if_neg hsum)
  · exact fun a hspares => regulator?_apply_of_spares hs hspares hlive

/-- A regulator that is set and shifted, between them a decay, a shift by what is not finite, and the removal
of another entry. -/
def shifted : List (Act Float Nat) :=
  [.insert ⟨1⟩ 10, .insert ⟨3⟩ 20, .set 0 (Scalar.ratio 1 2) 3, .decay, .adjust 0 (Scalar.ratio 1 0) 9,
    .erase 1]

/-- One of the two ticks is gone, and the sum of both amounts is still there. A shift by what is not finite
changes nothing. -/
theorem regulators_expire_shifted :
    let s : Registry Float Nat :=
      after (.empty (Scalar.ratio 1 2)) (shifted ++ .adjust 0 (Scalar.ratio 1 4) 2 :: [.decay])
    s.regulator? 0 = some (Regulator.faded ⟨Scalar.ratio 1 2 + Scalar.ratio 1 4, 2⟩ 1) ∧
      s.adjustRegulator? 0 (Scalar.ratio 1 0) 9 = some s := by
  intro s
  have hexpire := regulators_expire (.empty (Scalar.ratio 1 2))
    (shifted ++ .adjust 0 (Scalar.ratio 1 4) 2 :: [.decay])
  have hfaded := hexpire.2.1 shifted (.adjust 0 (Scalar.ratio 1 4) 2) [.decay] 0
    ⟨Scalar.ratio 1 2 + Scalar.ratio 1 4, 2⟩ rfl (by decide +kernel) ⟨rfl, trivial⟩
  cases h : s.regulator? 0 with
  | none => exact absurd h (by decide +kernel)
  | some reg =>
    obtain rfl := hfaded reg h
    exact ⟨rfl, (hexpire.2.2.2 0 _ h).2.1 (Scalar.ratio 1 0) 9 (by decide +kernel)⟩

/-- A reset does not wait for countdowns: the regulator was set for four decays, none has come, and it is
neutral. -/
theorem reset_ends_regulation :
    let r : Registry Float Nat := after (.empty (Scalar.ratio 1 2)) [.insert ⟨1⟩ 10]
    (after r [.set 0 1 4]).regulator? 0 = some ⟨1, 4⟩ ∧
      (after r [.set 0 1 4, .reset]).regulator? 0 = some .neutral ∧
      Regulator.faded ⟨(1 : Float), 4⟩ 0 ≠ .neutral := by
  decide +kernel

end Registry

end Vivarium
