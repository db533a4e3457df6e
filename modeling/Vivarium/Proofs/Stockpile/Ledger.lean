import Mathlib.Algebra.BigOperators.Group.List.Basic
import Mathlib.Tactic.Linarith
import Mathlib.Tactic.Ring
import Vivarium.Proofs.Stockpile
import Vivarium.Scalar.Extended
/-!
# The ledger of a stockpile

What a stockpile holds is what grew there and what was contributed from its four sides, less all that its
requests returned. Amounts that are not finite occur as arguments only: a request for one takes nothing, a
credit of one is not booked, and a fraction is held between nothing and the whole. So a stockpile that was
empty at first goes through the same balances as one of exact amounts.
-/
namespace Vivarium

namespace Stockpile

/-! ## What is done to a stockpile -/

inductive Act (α : Type) where
  | request (amount : α)
  | requestFraction (fraction : α)
  | harvest (level : Nat) (amount : α)
  /-- Any number names a side. -/
  | contribute (amount : α) (side : Nat)
  | grow (amount : α)

def Act.growth? {α : Type} : Act α → Option α
  | grow amount => some amount
  | _ => none

variable {α : Type} [Scalar α]

/-- What a request returns, and the stockpile that an act leaves. -/
def Act.perform (s : Stockpile α) : Act α → Option α × Stockpile α
  | request amount => (s.request amount).map some id
  | requestFraction fraction => (s.requestFraction fraction).map some id
  | harvest level amount => (s.harvest level amount).map some id
  | contribute amount side => (none, s.contribute amount (.ofNat side))
  | grow amount => (none, s.grow amount)

def after (s : Stockpile α) (acts : List (Act α)) : Stockpile α :=
  acts.foldl (fun s a => (a.perform s).2) s

def returned (s : Stockpile α) : List (Act α) → List α
  | [] => []
  | a :: later => (a.perform s).1.toList ++ returned (a.perform s).2 later

/-! ## Exact amounts -/

section

variable (s : Stockpile Rat) (a : Act Rat) (acts : List (Act Rat))

def tally : Rat := s.contributions.toList.sum

theorem tally_new (nlev : Nat) : (new nlev : Stockpile Rat).tally = 0 := by
  change (PerFacing.replicate (0 : Rat)).toList.sum = 0
  simp only [PerFacing.replicate, PerFacing.toList, List.sum_cons, List.sum_nil, add_zero]

theorem available_le (amount : Rat) : s.available amount ≤ max 0 s.resource := by
  rw [available_eq]
  exact min_le_right _ _

theorem tally_contribute (amount : Rat) (d : Direction) :
    (s.contribute amount d).resource + s.tally = s.resource + (s.contribute amount d).tally := by
  unfold contribute
  split
  · have htally : (s.contributions.modify d (· + amount)).toList.sum = s.tally + amount := by
      match d with
      | 0 | 1 | 2 | 3 =>
        simp only [tally, PerFacing.modify, PerFacing.toList, List.sum_cons, List.sum_nil]
        ring
    change s.resource + amount + s.tally = s.resource + (s.contributions.modify d (· + amount)).toList.sum
    rw [htally]
    ring
  · rfl

/-- Every act keeps the books. -/
theorem balance_perform : (a.perform s).2.resource + (a.perform s).1.toList.sum + s.tally =
    s.resource + a.growth?.toList.sum + (a.perform s).2.tally := by
  have debit (t : Stockpile Rat) (amount : Rat) :
      (t.request amount).2.resource + [(t.request amount).1].sum + t.tally =
        t.resource + ([] : List Rat).sum + t.tally := by
    rw [resource_request, List.sum_singleton, List.sum_nil]
    ring
  cases a with
  | request amount => exact debit s amount
  | requestFraction fraction => exact debit s _
  | harvest level amount => exact debit { s with harvested := _ } amount
  | contribute amount side =>
    have hcredit := s.tally_contribute amount (.ofNat side)
    change (s.contribute amount _).resource + ([] : List Rat).sum + s.tally =
      s.resource + ([] : List Rat).sum + (s.contribute amount _).tally
    rw [List.sum_nil, add_zero, add_zero, hcredit]
  | grow amount =>
    change s.resource + amount + ([] : List Rat).sum + s.tally = s.resource + [amount].sum + s.tally
    rw [List.sum_nil, List.sum_singleton, add_zero]

/-- What came in equals what is there and what was returned. -/
theorem balance_after : (after s acts).resource + (returned s acts).sum + s.tally =
    s.resource + (acts.filterMap Act.growth?).sum + (after s acts).tally := by
  induction acts generalizing s with
  | nil => simp [after, returned]
  | cons a later ih =>
    have hstep := balance_perform s a
    have hlater := ih (a.perform s).2
    have hgrowth : ((a :: later).filterMap Act.growth?).sum =
        a.growth?.toList.sum + (later.filterMap Act.growth?).sum := by
      cases h : a.growth? with
      | none => simp [h]
      | some amount => simp [h]
    rw [hgrowth, returned, List.sum_append]
    change (after (a.perform s).2 later).resource + _ + _ = _ + _ + (after (a.perform s).2 later).tally
    linarith

/-- A request debits what it returns, and that is no more than is there. -/
theorem of_perform_eq_some {x : Rat} (h : (a.perform s).1 = some x) :
    0 ≤ x ∧ x ≤ max 0 s.resource ∧ (a.perform s).2.resource = s.resource - x := by
  have debit {amount : Rat} (hx : some (s.available amount) = some x) :
      0 ≤ x ∧ x ≤ max 0 s.resource ∧ s.resource - s.available amount = s.resource - x := by
    obtain rfl := Option.some.inj hx
    exact ⟨s.available_nonneg amount, s.available_le amount, rfl⟩
  cases a with
  | request amount => exact debit h
  | requestFraction fraction => exact debit h
  | harvest level amount => exact debit h
  | contribute | grow => cases h

/-- No act lowers what a side has contributed. -/
theorem contributedFrom_le (d : Direction) :
    s.contributedFrom d ≤ (a.perform s).2.contributedFrom d := by
  cases a with
  | contribute amount side =>
    change s.contributedFrom d ≤ (s.contribute amount _).contributedFrom d
    unfold contribute
    split
    · next hc =>
      by_cases hd : d = .ofNat side
      · rw [hd, contributedFrom, contributedFrom, PerFacing.get_modify_same]
        exact le_add_of_nonneg_right (le_of_lt (of_decide_eq_true hc))
      · rw [contributedFrom, contributedFrom, PerFacing.get_modify_other _ _ hd]
    · exact le_refl _
  | grow | request | requestFraction | harvest => exact le_refl _

/-- Requests leave what they do not return, and nothing is taken from a balance below zero. -/
theorem nonneg_perform (h : 0 ≤ s.resource) (hgrow : ∀ x ∈ a.growth?, 0 ≤ x) :
    0 ≤ (a.perform s).2.resource := by
  have debit (amount : Rat) : 0 ≤ s.resource - s.available amount := by
    have hle := available_le s amount
    rw [max_eq_right h] at hle
    exact sub_nonneg.2 hle
  cases a with
  | request amount => exact debit amount
  | requestFraction fraction => exact debit _
  | harvest level amount => exact debit amount
  | contribute amount side =>
    change 0 ≤ (s.contribute amount _).resource
    unfold contribute
    split
    · next hc => exact add_nonneg h (le_of_lt (of_decide_eq_true hc))
    · exact h
  | grow amount => exact add_nonneg h (hgrow amount rfl)

/-- Exact acts never overdraw the balance. -/
theorem nonneg_after (h : 0 ≤ s.resource) (hgrow : ∀ x ∈ acts.filterMap Act.growth?, 0 ≤ x) :
    0 ≤ (after s acts).resource := by
  induction acts generalizing s with
  | nil => exact h
  | cons a later ih =>
    apply ih (a.perform s).2
    · exact nonneg_perform s a h fun x hx => hgrow x (List.mem_filterMap.2 ⟨a, List.mem_cons_self, hx⟩)
    · intro x hx
      obtain ⟨b, hb, hgrowth⟩ := List.mem_filterMap.1 hx
      exact hgrow x (List.mem_filterMap.2 ⟨b, List.mem_cons_of_mem a hb, hgrowth⟩)

end

/-! ## Amounts that may not be finite -/

end Stockpile

namespace Extended

def rat? : Extended → Option Rat
  | exact x => some x
  | _ => none

def counted (x : Extended) : Rat := x.rat?.getD 0

def fraction : Extended → Rat
  | exact x => x
  | infinite false => 1
  | _ => 0

theorem ite_exact {p q : Prop} [Decidable p] [Decidable q] (h : p ↔ q) (x y : Rat) :
    (if p then exact x else exact y) = exact (if q then x else y) := by
  by_cases hq : q
  · rw [if_pos hq, if_pos (h.2 hq)]
  · rw [if_neg hq, if_neg fun hp => hq (h.1 hp)]

theorem positivePart_exact (x : Rat) :
    Scalar.positivePart (exact x) = exact (Scalar.positivePart x) :=
  ite_exact (exact_le_exact 0 x) x 0

theorem least_exact (x y : Rat) : Scalar.least (exact x) (exact y) = exact (Scalar.least x y) :=
  ite_exact (exact_le_exact x y) x y

theorem within_eq (x : Extended) : Scalar.within 1 x = exact (Scalar.within 1 x.fraction) := by
  cases x with
  | exact x =>
    have hhigh := ite_exact (exact_le_exact x 1) x 1
    have hlow := ite_exact (exact_le_exact 0 x) (if x ≤ 1 then x else 1) 0
    change (if (0 : Extended) ≤ exact x then (if exact x ≤ 1 then exact x else 1) else 0) = _
    rw [← hhigh] at hlow
    exact hlow
  | infinite negative => cases negative <;> decide
  | notANumber => decide

end Extended

namespace Stockpile

open Extended

/-- The stockpile among those whose amounts need not be finite. -/
def extend (s : Stockpile Rat) : Stockpile Extended :=
  ⟨.exact s.resource, s.harvested, s.contributions.map .exact⟩

/-- The act with the amounts that count. -/
def Act.exactly : Act Extended → Act Rat
  | request amount => request amount.counted
  | requestFraction fraction => requestFraction fraction.fraction
  | harvest level amount => harvest level amount.counted
  | contribute amount side => contribute amount.counted side
  | grow amount => grow amount.counted

variable (s : Stockpile Rat)

/-- An amount that is not finite counts as nothing. -/
theorem available_extend (amount : Extended) :
    s.extend.available amount = .exact (s.available amount.counted) := by
  have hasked : (if Scalar.isFinite amount then Scalar.positivePart amount else 0) =
      exact (Scalar.positivePart amount.counted) := by
    cases amount with
    | exact x => exact positivePart_exact x
    | infinite negative => exact (positivePart_exact 0).symm
    | notANumber => exact (positivePart_exact 0).symm
  unfold available
  rw [hasked, extend, positivePart_exact, least_exact]
  rfl

theorem request_extend (amount : Extended) :
    s.extend.request amount = (s.request amount.counted).map .exact extend := by
  unfold request
  rw [available_extend]
  change (_, _) = (_, _)
  refine Prod.ext rfl ?_
  simp only [extend, exact_sub_exact]

theorem requestFraction_extend (amount : Extended) :
    s.extend.requestFraction amount = (s.requestFraction amount.fraction).map .exact extend := by
  unfold requestFraction
  rw [extend, positivePart_exact, within_eq, exact_mul_exact]
  exact s.request_extend _

theorem contributions_extend (amount : Rat) (d : Direction) :
    (s.contributions.modify d (· + amount)).map Extended.exact =
      (s.contributions.map .exact).modify d (· + .exact amount) := by
  match d with
  | 0 | 1 | 2 | 3 => rfl

theorem contribute_extend (amount : Extended) (d : Direction) :
    s.extend.contribute amount d = (s.contribute amount.counted d).extend := by
  cases amount with
  | exact x =>
    have hcreditable : creditable (Extended.exact x) = creditable x := decide_eq_decide.2 (exact_lt_exact 0 x)
    change s.extend.contribute (.exact x) d = (s.contribute x d).extend
    unfold contribute
    rw [hcreditable]
    split
    · rw [extend, extend, contributions_extend, exact_add_exact]
    · rfl
  | infinite negative => rfl
  | notANumber => rfl

theorem grow_extend (amount : Extended) : s.extend.grow amount = (s.grow amount.counted).extend := by
  have hnone : s.grow 0 = s := by
    change { s with resource := s.resource + 0 } = s
    rw [Rat.add_zero]
  cases amount with
  | exact x => rfl
  | infinite negative => exact congrArg extend hnone.symm
  | notANumber => exact congrArg extend hnone.symm

/-- Every act does among exact amounts what it does beside the others. -/
theorem perform_extend (a : Act Extended) :
    a.perform s.extend = (a.exactly.perform s).map (Option.map .exact) extend := by
  cases a with
  | request amount => exact congrArg (Prod.map some id) (s.request_extend amount)
  | requestFraction amount => exact congrArg (Prod.map some id) (s.requestFraction_extend amount)
  | harvest level amount =>
    exact congrArg (Prod.map some id)
      (request_extend { s with harvested := s.harvested.modify level fun _ => true } amount)
  | contribute amount side => exact congrArg (Prod.mk none) (s.contribute_extend amount _)
  | grow amount => exact congrArg (Prod.mk none) (s.grow_extend amount)

/-- With arguments that need not be finite everything goes as with the amounts that count. -/
theorem after_extend (acts : List (Act Extended)) :
    after s.extend acts = (after s (acts.map Act.exactly)).extend := by
  induction acts generalizing s with
  | nil => rfl
  | cons a later ih =>
    change after (a.perform s.extend).2 later = (after (a.exactly.perform s).2 _).extend
    rw [perform_extend]
    exact ih _

theorem returned_extend (acts : List (Act Extended)) :
    returned s.extend acts = (returned s (acts.map Act.exactly)).map .exact := by
  induction acts generalizing s with
  | nil => rfl
  | cons a later ih =>
    rw [List.map_cons, returned, returned, List.map_append, perform_extend, Prod.map_fst, Prod.map_snd,
      ih, Option.toList_map]

def grown (acts : List (Act Extended)) : List Rat :=
  acts.filterMap fun a => a.growth?.bind Extended.rat?

theorem growth?_exactly (a : Act Extended) : a.exactly.growth? = a.growth?.map Extended.counted := by
  cases a with
  | grow | request | requestFraction | harvest | contribute => rfl

/-- What is not finite counts as nothing. -/
theorem sum_grown (acts : List (Act Extended)) :
    (grown acts).sum = ((acts.map Act.exactly).filterMap Act.growth?).sum := by
  induction acts with
  | nil => rfl
  | cons a later ih =>
    rw [List.map_cons, grown, List.filterMap_cons, List.filterMap_cons, growth?_exactly]
    cases a.growth? with
    | none => exact ih
    | some amount =>
      cases amount with
      | exact x => exact congrArg (x + ·) ih
      | infinite negative => exact ih.trans (zero_add _).symm
      | notANumber => exact ih.trans (zero_add _).symm

theorem nonneg_grown {acts : List (Act Extended)} (h : ∀ x ∈ grown acts, 0 ≤ x) :
    ∀ x ∈ (acts.map Act.exactly).filterMap Act.growth?, 0 ≤ x := by
  intro x hx
  obtain ⟨b, hb, hgrowth⟩ := List.mem_filterMap.1 hx
  obtain ⟨a, ha, rfl⟩ := List.mem_map.1 hb
  rw [growth?_exactly] at hgrowth
  obtain ⟨amount, hamount, rfl⟩ := Option.map_eq_some_iff.1 hgrowth
  cases amount with
  | exact q =>
    refine h q (List.mem_filterMap.2 ⟨a, ha, ?_⟩)
    rw [hamount]
    rfl
  | infinite negative => exact le_refl 0
  | notANumber => exact le_refl 0

/-! ## The books -/

/-- A request does not take the balance below zero, and it does not touch one that is below zero. -/
theorem of_perform_extend_eq_some {a : Act Extended} {x : Extended}
    (h : (a.perform s.extend).1 = some x) :
    (∃ taken, x = exact taken ∧ 0 ≤ taken ∧ taken ≤ max 0 s.resource) ∧
      (0 ≤ s.extend.resource → 0 ≤ (a.perform s.extend).2.resource) ∧
      (s.extend.resource < 0 → (a.perform s.extend).2.resource = s.extend.resource) := by
  rw [perform_extend] at h ⊢
  obtain ⟨taken, htaken, rfl⟩ := Option.map_eq_some_iff.1 h
  obtain ⟨hnonneg, hle, hleft⟩ := s.of_perform_eq_some a.exactly htaken
  refine ⟨⟨taken, rfl, hnonneg, hle⟩, fun hs => ?_, fun hs => ?_⟩
  · have hresource : 0 ≤ s.resource := (exact_le_exact 0 _).1 hs
    rw [max_eq_right hresource] at hle
    have hrest : 0 ≤ (a.exactly.perform s).2.resource := by
      rw [hleft]
      exact sub_nonneg.2 hle
    exact (exact_le_exact 0 _).2 hrest
  · have hresource : s.resource < 0 := (exact_lt_exact _ 0).1 hs
    rw [max_eq_left (le_of_lt hresource)] at hle
    change exact (a.exactly.perform s).2.resource = exact s.resource
    rw [hleft, le_antisymm hle hnonneg, sub_zero]

theorem contributedFrom_extend (d : Direction) :
    s.extend.contributedFrom d = exact (s.contributedFrom d) := PerFacing.get_map _ _ d

/-- A contribution that is not positive and finite is ignored. -/
theorem contribute_eq_self {t : Stockpile Extended} {amount : Extended}
    (h : Scalar.isFinite amount = false ∨ amount ≤ 0) (d : Direction) : t.contribute amount d = t := by
  have hnot : creditable amount = false := by
    rcases h with h | h
    · exact Bool.and_eq_false_imp.2 fun hf => absurd hf (by rw [h]; exact Bool.false_ne_true)
    · cases amount with
      | exact x =>
        have hx : ¬0 < x := not_lt.2 ((exact_le_exact x 0).1 h)
        exact decide_eq_false fun hlt => hx ((exact_lt_exact 0 x).1 hlt)
      | infinite | notANumber => rfl
  rw [contribute, hnot]
  exact if_neg Bool.false_ne_true

/-- Whatever is done to a new stockpile, its balance is what grew there and what came from the four sides, less
what its requests returned. A request returns no more than is there. It does not take the balance below zero,
so only growth can, and it does not touch a balance that is below zero. -/
theorem ledger_balances (nlev : Nat) (acts : List (Act Extended)) :
    let s := after (new nlev) acts
    ∃ (balance : Rat) (tallies : PerFacing Rat) (paid : List Rat),
      s.resource = .exact balance ∧
      (∀ d, s.contributedFrom d = .exact (tallies.get d)) ∧
      returned (new nlev) acts = paid.map .exact ∧
      balance = (grown acts).sum + tallies.toList.sum - paid.sum ∧
      ((∀ x ∈ grown acts, 0 ≤ x) → 0 ≤ balance) ∧
      (∀ (a : Act Extended) (x : Extended), (a.perform s).1 = some x →
        (∃ taken, x = .exact taken ∧ 0 ≤ taken ∧ taken ≤ max 0 balance) ∧
        (0 ≤ s.resource → 0 ≤ (a.perform s).2.resource) ∧
        (s.resource < 0 → (a.perform s).2.resource = s.resource)) ∧
      (∀ (a : Act Extended) (d : Direction), s.contributedFrom d ≤ (a.perform s).2.contributedFrom d) ∧
      (∀ (x : Extended) (side : Nat), Scalar.isFinite x = false ∨ x ≤ 0 →
        ((Act.contribute x side).perform s).2 = s) ∧
      (∀ x : Extended, Scalar.isFinite x = false → ((Act.grow x).perform s).2 = s) := by
  intro s
  have hs : s = (after (new nlev) (acts.map Act.exactly)).extend := after_extend (new nlev) acts
  generalize ht : after (new nlev) (acts.map Act.exactly) = t at hs
  have hbalance := balance_after (new nlev) (acts.map Act.exactly)
  rw [ht, ← sum_grown] at hbalance
  rw [hs]
  refine ⟨t.resource, t.contributions, _, rfl, t.contributedFrom_extend, returned_extend (new nlev) acts,
    ?_, ?_, ?_, ?_, ?_, ?_⟩
  · rw [tally_new, add_zero] at hbalance
    change _ = 0 + _ + t.contributions.toList.sum at hbalance
    linarith
  · intro hgrown
    rw [← ht]
    exact nonneg_after (new nlev) _ (le_refl 0) (nonneg_grown hgrown)
  · exact fun a x h => t.of_perform_extend_eq_some h
  · intro a d
    rw [perform_extend]
    change t.extend.contributedFrom d ≤ (extend _).contributedFrom d
    rw [contributedFrom_extend, contributedFrom_extend, exact_le_exact]
    exact t.contributedFrom_le a.exactly d
  · exact fun x side h => contribute_eq_self h (.ofNat side)
  · intro x h
    exact if_neg (by rw [h]; exact Bool.false_ne_true)

/-- Seven come in, five of them from outside. Half of that is requested, and then more than is left. -/
def ration : List (Act Extended) :=
  [.grow (.exact 5), .contribute (.exact 2) 7, .grow (.infinite true), .contribute .notANumber 1,
    .requestFraction (.exact (1 / 2)), .harvest 0 (.exact 10)]

/-- Half of seven is returned, and then the other half. -/
theorem ledger_balances_ration :
    (∀ x ∈ grown ration, 0 ≤ x) ∧ grown ration = [5] ∧
      returned (new 1) ration = [.exact (7 / 2), .exact (7 / 2)] ∧
      (after (new 1) ration).contributedFrom 3 = .exact 2 ∧
      ∃ balance, (after (new 1) ration).resource = .exact balance ∧ 0 ≤ balance := by
  have hgrown : grown ration = [5] := by decide +kernel
  have hnonneg : ∀ x ∈ grown ration, 0 ≤ x := by
    rw [hgrown]
    decide
  obtain ⟨balance, -, -, hbalance, -, -, -, hnever, -⟩ := ledger_balances 1 ration
  refine ⟨hnonneg, hgrown, ?_, ?_, balance, hbalance, hnever hnonneg⟩
  · decide +kernel
  · decide +kernel

end Stockpile

end Vivarium
