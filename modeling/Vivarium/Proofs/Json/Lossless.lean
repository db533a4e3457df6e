import Mathlib.Data.List.Forall2
import Vivarium.Json.World
/-!
# Stored forms lose nothing

What is written of a program or of a lineage is read again as it was, down to the last bit of every
number. Readers accept more than is written: members in any order and among others, optional members
that are missing, plain choices with an empty payload, sets with repeated members. Main statement: a
value that was read from any of these has a written form that is read as the same value.
-/
namespace Vivarium

open Form

variable {α τ : Type}

namespace Form

/-! ## Words -/

/-- Which values can be stored: numbers have to be 64-bit words. -/
class Sized (τ : Type) where
  Fits : τ → Prop

/-- A form that loses nothing: what is written is read again as it was, and what is read can be
written. -/
class Lossless (α τ : Type) [Form α τ] [Sized τ] : Prop where
  decode_encode : ∀ {x : τ}, Sized.Fits x → decode (encode x : Json α) = some x
  fits_of_decode : ∀ {j : Json α} {x : τ}, decode j = some x → Sized.Fits x

instance : Sized Nat := ⟨(· < wordLimit)⟩
instance : Sized UInt64 := ⟨fun _ => True⟩
instance : Sized Tag := ⟨fun _ => True⟩
instance : Sized Tick := ⟨fun _ => True⟩
instance [Sized τ] : Sized (Option τ) := ⟨fun o => ∀ x ∈ o, Sized.Fits x⟩
instance [Sized τ] : Sized (List τ) := ⟨fun xs => ∀ x ∈ xs, Sized.Fits x⟩

theorem boundedNat_eq_some {limit n : Nat} {j : Json α} :
    boundedNat limit j = some n ↔ j = .int n ∧ n < limit := by
  cases j with
  | int i =>
    simp only [boundedNat, Json.int.injEq]
    by_cases h : 0 ≤ i ∧ i < limit
    · rw [if_pos h, Option.some.injEq]
      omega
    · rw [if_neg h]
      constructor
      · exact fun h => nomatch h
      · rintro ⟨rfl, hn⟩
        exact absurd ⟨Int.natCast_nonneg n, Int.ofNat_lt.2 hn⟩ h
  | _ => simp [boundedNat]

instance : Lossless α Nat where
  decode_encode h := boundedNat_eq_some.2 ⟨rfl, h⟩
  fits_of_decode h := (boundedNat_eq_some.1 h).2

theorem decode_word (x : UInt64) : decode (.int x.toNat : Json α) = some x := by
  have hx : boundedNat wordLimit (.int x.toNat : Json α) = some x.toNat :=
    boundedNat_eq_some.2 ⟨rfl, x.toNat_lt⟩
  change (boundedNat _ _).map _ = _
  rw [hx, Option.map_some, UInt64.ofNat_toNat]

instance : Lossless α UInt64 where
  decode_encode {x} _ := decode_word x
  fits_of_decode _ := trivial

instance : Lossless α Tag where
  decode_encode {t} _ := congrArg (Option.map Tag.mk) (decode_word t.bits)
  fits_of_decode _ := trivial

instance : Lossless α Tick where
  decode_encode {t} _ := congrArg (Option.map Tick.mk) (decode_word t.count)
  fits_of_decode _ := trivial

/-! ## Lists -/

section Lists

variable [Form α τ]

/-- A list is read item by item. -/
theorem mapM_decode_eq_some_iff {items : List (Json α)} {xs : List τ} :
    items.mapM decode = some xs ↔ List.Forall₂ (fun j x => decode j = some x) items xs := by
  induction items generalizing xs with
  | nil => cases xs <;> simp
  | cons j rest ih =>
    rw [List.mapM_cons, List.forall₂_cons_left_iff]
    simp only [Option.bind_eq_bind, Option.bind_eq_some_iff, Option.pure_def, Option.some.injEq, ih]
    constructor
    · rintro ⟨x, hx, ys, hys, rfl⟩
      exact ⟨x, ys, hx, hys, rfl⟩
    · rintro ⟨x, ys, hx, hys, rfl⟩
      exact ⟨x, hx, ys, hys, rfl⟩

/-- A list is read item by item. -/
theorem decode_list {j : Json α} {xs : List τ} :
    decode j = some xs ↔
      ∃ items, j = .arr items ∧ List.Forall₂ (fun j x => decode j = some x) items xs := by
  constructor
  · intro h
    cases j with
    | arr items => exact ⟨items, rfl, mapM_decode_eq_some_iff.1 h⟩
    | _ => cases h
  · rintro ⟨items, rfl, h⟩
    exact mapM_decode_eq_some_iff.2 h

theorem exists_item {items : List (Json α)} {xs : List τ}
    (h : List.Forall₂ (fun j x => decode j = some x) items xs) {x : τ} (hx : x ∈ xs) :
    ∃ j ∈ items, decode j = some x := by
  induction h with
  | nil => cases hx
  | cons hhead _ ih =>
    rcases List.mem_cons.1 hx with rfl | hx
    · exact ⟨_, List.mem_cons_self, hhead⟩
    · obtain ⟨j, hj, hread⟩ := ih hx
      exact ⟨j, List.mem_cons_of_mem _ hj, hread⟩

instance [Sized τ] [Lossless α τ] : Lossless α (List τ) where
  decode_encode {xs} h := by
    have hitems : List.Forall₂ (fun j x => decode j = some x) (xs.map encode : List (Json α)) xs :=
      List.forall₂_map_left_iff.2 (List.forall₂_same.2 fun x hx => Lossless.decode_encode (h x hx))
    exact decode_list.2 ⟨_, rfl, hitems⟩
  fits_of_decode h x hx := by
    obtain ⟨items, -, hitems⟩ := decode_list.1 h
    obtain ⟨j, -, hread⟩ := exists_item hitems hx
    exact Lossless.fits_of_decode hread

end Lists

end Form

/-! ## Sets of positions -/

namespace Positions

theorem put_of_lt {p : Nat} {ps : List Nat} (h : ∀ q ∈ ps, q < p) : put p ps = ps ++ [p] := by
  induction ps with
  | nil => rfl
  | cons q rest ih =>
    have hq := h q List.mem_cons_self
    rw [put, if_neg (by omega), if_neg (by omega), ih fun r hr => h r (List.mem_cons_of_mem q hr),
      List.cons_append]

/-- Members that come in order are put in one behind the other. -/
theorem toList_foldl_insert {ps : List Nat} (hps : ps.Pairwise (· < ·)) (s : Positions)
    (h : ∀ q ∈ s.toList, ∀ p ∈ ps, q < p) : (ps.foldl insert s).toList = s.toList ++ ps := by
  induction ps generalizing s with
  | nil => rw [List.foldl_nil, List.append_nil]
  | cons p rest ih =>
    obtain ⟨hp, hrest⟩ := List.pairwise_cons.1 hps
    have hput : (s.insert p).toList = s.toList ++ [p] :=
      put_of_lt fun q hq => h q hq p List.mem_cons_self
    rw [List.foldl_cons, ih hrest, hput, List.append_assoc, List.singleton_append]
    intro q hq r hr
    rw [hput, List.mem_append, List.mem_singleton] at hq
    rcases hq with hq | rfl
    · exact h q hq r (List.mem_cons_of_mem p hr)
    · exact hp r hr

theorem ofList_toList (s : Positions) : ofList s.toList = s :=
  eq_of_toList_eq (toList_foldl_insert s.ascending empty fun q hq => by cases hq)

theorem mem_foldl_insert {ps : List Nat} {s : Positions} {p : Nat} :
    p ∈ (ps.foldl insert s).toList ↔ p ∈ s.toList ∨ p ∈ ps := by
  induction ps generalizing s with
  | nil => simp
  | cons q rest ih =>
    rw [List.foldl_cons, ih, List.mem_cons, insert, mem_put, or_comm (a := p = q), or_assoc]

end Positions

namespace Form

instance : Sized Positions := ⟨fun s => Sized.Fits s.toList⟩

instance : Lossless α Positions where
  decode_encode {s} h := by
    have hlist : Sized.Fits s.toList := h
    have hs : decode (encode s.toList : Json α) = some s.toList := Lossless.decode_encode hlist
    change (decode (encode s.toList : Json α)).map Positions.ofList = some s
    rw [hs, Option.map_some, Positions.ofList_toList]
  fits_of_decode {j s} h := by
    obtain ⟨ps, hps, rfl⟩ := Option.map_eq_some_iff.1 h
    intro p hp
    rcases Positions.mem_foldl_insert.1 hp with hp | hp
    · cases hp
    · exact Lossless.fits_of_decode hps p hp

/-! ## Parts of records -/

section Parts

variable [Form α τ] [Sized τ] [Lossless α τ]

theorem required_encode {x : τ} (h : Sized.Fits x) :
    required (some (encode x : Json α)) = some x := Lossless.decode_encode h

theorem fits_of_required {part : Option (Json α)} {x : τ} (h : required part = some x) :
    Sized.Fits x := by
  obtain ⟨j, -, hj⟩ := Option.bind_eq_some_iff.1 h
  exact Lossless.fits_of_decode hj

omit [Sized τ] [Lossless α τ] in
/-- Whatever is not null is read as something that is there. -/
theorem decode_option {j : Json α} (hj : j ≠ .null) :
    (decode j : Option (Option τ)) = (decode j).map some := by
  cases j with
  | null => exact absurd rfl hj
  | _ => rfl

/-- A member that may be missing is written as `null` when it is, so what is there is not. -/
theorem ifPresent_encode (hnull : ∀ x : τ, (encode x : Json α) ≠ .null) {o : Option τ}
    (h : Sized.Fits o) : ifPresent (some (encode o : Json α)) = some o := by
  cases o with
  | none => rfl
  | some x =>
    have hx : decode (encode x : Json α) = some x := Lossless.decode_encode (h x rfl)
    change decode (encode x : Json α) = some (some x)
    rw [decode_option (hnull x), hx, Option.map_some]

theorem fits_of_ifPresent {part : Option (Json α)} {o : Option τ} (h : ifPresent part = some o) :
    Sized.Fits o := by
  intro x hx
  obtain rfl := Option.mem_def.1 hx
  cases part with
  | none => cases h
  | some j =>
    by_cases hj : j = .null
    · subst hj
      cases h
    · change decode j = _ at h
      rw [decode_option hj, Option.map_eq_some_iff] at h
      obtain ⟨y, hy, he⟩ := h
      obtain rfl := Option.some.inj he
      exact Lossless.fits_of_decode hy

end Parts

/-- The parts of an object that has just the named members are what the members hold. -/
theorem parts?_eq {j : Json α} (names : List String) (values : List (Json α))
    (hj : j = .obj (names.zip values)) (hnames : names.Nodup)
    (hlength : values.length = names.length) : j.parts? names = some (values.map some) := by
  rw [hj]
  change some (names.map fun name => (names.zip values).lookup name) = _
  congr 1
  clear hj
  induction names generalizing values with
  | nil =>
    obtain rfl := List.eq_nil_of_length_eq_zero hlength
    rfl
  | cons name rest ih =>
    obtain ⟨value, values, rfl⟩ := List.exists_cons_of_length_eq_add_one hlength
    obtain ⟨hname, hrest⟩ := List.nodup_cons.1 hnames
    have hsame : ((name, value) :: rest.zip values).lookup name = some value := by
      rw [List.lookup_cons, beq_self_eq_true]
    have hother : rest.map (fun n => ((name, value) :: rest.zip values).lookup n) =
        rest.map (fun n => (rest.zip values).lookup n) := by
      apply List.map_congr_left
      intro n hn
      have hne : (n == name) = false := beq_eq_false_iff_ne.2 fun h => hname (h ▸ hn)
      rw [List.lookup_cons, hne]
    rw [List.zip_cons_cons, List.map_cons, List.map_cons, hsame, hother]
    rw [ih values hrest (Nat.succ.inj hlength)]

/-! ## Records

When a record is read, and what its parts are then. -/

section

variable {X : Type} [Form α X]

/-- The three members of an instruction are all required. -/
theorem decode_instruction {j : Json α} {i : Instruction X} :
    decode j = some i ↔ ∃ op args affinity,
      j.parts? ["op", "args", "affinity"] = some [op, args, affinity] ∧
      required op = some i.op ∧ required args = some i.args ∧
      required affinity = some i.affinity := by
  constructor
  · intro h
    obtain ⟨parts, hparts, h⟩ := Option.bind_eq_some_iff.1 h
    split at h
    · obtain ⟨_, hop, h⟩ := Option.bind_eq_some_iff.1 h
      obtain ⟨_, hargs, h⟩ := Option.bind_eq_some_iff.1 h
      obtain ⟨_, haffinity, h⟩ := Option.bind_eq_some_iff.1 h
      cases h
      exact ⟨_, _, _, hparts, hop, hargs, haffinity⟩
    · cases h
  · rintro ⟨op, args, affinity, hparts, hop, hargs, haffinity⟩
    simp only [decode, hparts, hop, hargs, haffinity, Option.bind_eq_bind, Option.bind_some]
    rfl

theorem decode_function {j : Json α} {f : Function X} :
    decode j = some f ↔ ∃ affinity body,
      j.parts? ["affinity", "body"] = some [affinity, body] ∧
      required affinity = some f.affinity ∧ required body = some f.body := by
  constructor
  · intro h
    obtain ⟨parts, hparts, h⟩ := Option.bind_eq_some_iff.1 h
    split at h
    · obtain ⟨_, haffinity, h⟩ := Option.bind_eq_some_iff.1 h
      obtain ⟨_, hbody, h⟩ := Option.bind_eq_some_iff.1 h
      cases h
      exact ⟨_, _, hparts, haffinity, hbody⟩
    · cases h
  · rintro ⟨affinity, body, hparts, haffinity, hbody⟩
    simp only [decode, hparts, haffinity, hbody, Option.bind_eq_bind, Option.bind_some]
    rfl

theorem decode_program {j : Json α} {p : Program X} :
    decode j = some p ↔ ∃ functions,
      j.parts? ["functions"] = some [functions] ∧ required functions = some p.functions := by
  constructor
  · intro h
    obtain ⟨parts, hparts, h⟩ := Option.bind_eq_some_iff.1 h
    split at h
    · obtain ⟨_, hfunctions, h⟩ := Option.bind_eq_some_iff.1 h
      cases h
      exact ⟨_, hparts, hfunctions⟩
    · cases h
  · rintro ⟨functions, hparts, hfunctions⟩
    simp only [decode, hparts, hfunctions, Option.bind_eq_bind, Option.bind_some]
    rfl

end

theorem decode_family {j : Json α} {f : Family} :
    decode j = some f ↔ ∃ parent children birth prevChan,
      j.parts? ["parent_pos", "child_pos", "birth_tick", "prev_chan"] =
        some [parent, children, birth, prevChan] ∧
      ifPresent parent = some f.parent ∧ required children = some f.children ∧
      required birth = some f.birth ∧ ifPresent prevChan = some f.prevChan := by
  constructor
  · intro h
    obtain ⟨parts, hparts, h⟩ := Option.bind_eq_some_iff.1 h
    split at h
    · obtain ⟨_, hparent, h⟩ := Option.bind_eq_some_iff.1 h
      obtain ⟨_, hchildren, h⟩ := Option.bind_eq_some_iff.1 h
      obtain ⟨_, hbirth, h⟩ := Option.bind_eq_some_iff.1 h
      obtain ⟨_, hprevChan, h⟩ := Option.bind_eq_some_iff.1 h
      cases h
      exact ⟨_, _, _, _, hparts, hparent, hchildren, hbirth, hprevChan⟩
    · cases h
  · rintro ⟨parent, children, birth, prevChan, hparts, hparent, hchildren, hbirth, hprevChan⟩
    simp only [decode, hparts, hparent, hchildren, hbirth, hprevChan, Option.bind_eq_bind,
      Option.bind_some]
    rfl

theorem decode_channel {j : Json α} {c : Channel} :
    decode j = some c ↔ ∃ ids generations ages expirations,
      j.parts? ["ids", "generations", "ages", "expirations"] =
        some [ids, generations, ages, expirations] ∧
      ifPresent ids = some c.ids ∧ required generations = some c.generations ∧
      required ages = some c.ages ∧ required expirations = some c.expirations := by
  constructor
  · intro h
    obtain ⟨parts, hparts, h⟩ := Option.bind_eq_some_iff.1 h
    split at h
    · obtain ⟨_, hids, h⟩ := Option.bind_eq_some_iff.1 h
      obtain ⟨_, hgenerations, h⟩ := Option.bind_eq_some_iff.1 h
      obtain ⟨_, hages, h⟩ := Option.bind_eq_some_iff.1 h
      obtain ⟨_, hexpirations, h⟩ := Option.bind_eq_some_iff.1 h
      cases h
      exact ⟨_, _, _, _, hparts, hids, hgenerations, hages, hexpirations⟩
    · cases h
  · rintro ⟨ids, generations, ages, expirations, hparts, hids, hgenerations, hages, hexpirations⟩
    simp only [decode, hparts, hids, hgenerations, hages, hexpirations, Option.bind_eq_bind,
      Option.bind_some]
    rfl

theorem decode_sireRecord {j : Json α} {r : SireRecord} :
    decode j = some r ↔ ∃ sourcePos dir level generations ids ages prevChan,
      j.parts? ["source_pos", "dir", "level", "generations", "ids", "ages", "prev_chan"] =
        some [sourcePos, dir, level, generations, ids, ages, prevChan] ∧
      required sourcePos = some r.sourcePos ∧ required dir = some r.dir ∧
      required level = some r.level ∧ required generations = some r.generations ∧
      required ids = some r.ids ∧ required ages = some r.ages ∧
      ifPresent prevChan = some r.prevChan := by
  constructor
  · intro h
    obtain ⟨parts, hparts, h⟩ := Option.bind_eq_some_iff.1 h
    split at h
    · obtain ⟨_, hsourcePos, h⟩ := Option.bind_eq_some_iff.1 h
      obtain ⟨_, hdir, h⟩ := Option.bind_eq_some_iff.1 h
      obtain ⟨_, hlevel, h⟩ := Option.bind_eq_some_iff.1 h
      obtain ⟨_, hgenerations, h⟩ := Option.bind_eq_some_iff.1 h
      obtain ⟨_, hids, h⟩ := Option.bind_eq_some_iff.1 h
      obtain ⟨_, hages, h⟩ := Option.bind_eq_some_iff.1 h
      obtain ⟨_, hprevChan, h⟩ := Option.bind_eq_some_iff.1 h
      cases h
      exact ⟨_, _, _, _, _, _, _, hparts, hsourcePos, hdir, hlevel, hgenerations, hids, hages,
        hprevChan⟩
    · cases h
  · rintro ⟨sourcePos, dir, level, generations, ids, ages, prevChan, hparts, hsourcePos, hdir,
    hlevel, hgenerations, hids, hages, hprevChan⟩
    simp only [decode, hparts, hsourcePos, hdir, hlevel, hgenerations, hids, hages, hprevChan,
      Option.bind_eq_bind, Option.bind_some]
    rfl

/-! ## Programs -/

instance : Sized FrameOp where
  Fits
    | .plain _ => True
    | .leveled _ level => Sized.Fits level

instance : Sized Operands := ⟨fun a => Sized.Fits [a.first, a.second, a.third]⟩

section

variable {X : Type} [Sized X]

instance : Sized (Op X) where
  Fits
    | .builtin _ => True
    | .ext x => Sized.Fits x

instance : Sized (Instruction X) := ⟨fun i => Sized.Fits i.op ∧ Sized.Fits i.args⟩
instance : Sized (Function X) := ⟨fun f => Sized.Fits f.body⟩
instance : Sized (Program X) := ⟨fun p => Sized.Fits p.functions⟩

end

/-- The operations have different names. -/
theorem find?_plain (act : PlainAct) : PlainAct.all.find? (·.form == act.form) = some act := by
  cases act <;> rfl

theorem find?_leveled (act : LeveledAct) :
    LeveledAct.all.find? (·.form == act.form) = some act := by
  cases act <;> rfl

theorem find?_builtin (b : Builtin) : Builtin.all.find? (·.name == b.name) = some b := by
  cases b <;> rfl

/-- No operation is called like the choice that stands for an extension. -/
theorem name_ne_extensionForm (b : Builtin) : b.name ≠ extensionForm := by
  cases b <;> decide

instance : Lossless α FrameOp where
  decode_encode {op} h := by
    cases op with
    | plain act => exact congrArg (Option.map FrameOp.plain) (find?_plain act)
    | leveled act level =>
      have hlevel : Sized.Fits level := h
      have hread : required (some (encode level : Json α)) = some level := required_encode hlevel
      change ((LeveledAct.all.find? fun a => a.form == act.form).bind fun a =>
        (required (some (encode level : Json α))).bind fun l => some (FrameOp.leveled a l)) = _
      rw [find?_leveled, Option.bind_some, hread, Option.bind_some]
  fits_of_decode {j op} h := by
    cases op with
    | plain act => trivial
    | leveled act level =>
      simp only [decode] at h
      split at h
      · obtain ⟨_, -, h⟩ := Option.map_eq_some_iff.1 h
        cases h
      · obtain ⟨⟨name, payload⟩, -, h⟩ := Option.bind_eq_some_iff.1 h
        obtain ⟨act, -, h⟩ := Option.bind_eq_some_iff.1 h
        obtain ⟨level, hlevel, h⟩ := Option.bind_eq_some_iff.1 h
        cases h
        have hfits : Sized.Fits level := fits_of_required hlevel
        exact hfits

instance : Lossless α Operands where
  decode_encode {a} h := by
    have hlist : Sized.Fits [a.first, a.second, a.third] := h
    have hread : decode (encode [a.first, a.second, a.third] : Json α) =
        some [a.first, a.second, a.third] := Lossless.decode_encode hlist
    change (decode (encode [a.first, a.second, a.third] : Json α)).bind _ = some a
    rw [hread]
    rfl
  fits_of_decode {j a} h := by
    obtain ⟨numbers, hnumbers, h⟩ := Option.bind_eq_some_iff.1 h
    have hfits : Sized.Fits numbers := Lossless.fits_of_decode hnumbers
    split at h
    · cases h
      exact hfits
    · cases h

section

variable {X : Type} [Form α X] [Sized X] [Lossless α X]

instance : Lossless α (Op X) where
  decode_encode {op} h := by
    cases op with
    | builtin b =>
      change (if b.name = extensionForm then _ else
        (Builtin.all.find? fun c => c.name == b.name).map Op.builtin) = _
      rw [if_neg (name_ne_extensionForm b), find?_builtin, Option.map_some]
    | ext x =>
      have hx : Sized.Fits x := h
      change (required (some (encode x : Json α))).bind _ = _
      rw [required_encode hx]
      rfl
  fits_of_decode {j op} h := by
    obtain ⟨⟨name, payload⟩, -, h⟩ := Option.bind_eq_some_iff.1 h
    cases op with
    | builtin b => trivial
    | ext x =>
      simp only at h
      split at h
      · obtain ⟨y, hy, h⟩ := Option.bind_eq_some_iff.1 h
        cases h
        have hfits : Sized.Fits x := fits_of_required hy
        exact hfits
      · obtain ⟨_, -, h⟩ := Option.bind_eq_some_iff.1 h
        obtain ⟨_, -, h⟩ := Option.map_eq_some_iff.1 h
        cases h

instance : Lossless α (Instruction X) where
  decode_encode {i} h := by
    obtain ⟨hop, hargs⟩ : Sized.Fits i.op ∧ Sized.Fits i.args := h
    exact decode_instruction.2 ⟨_, _, _,
      parts?_eq _ [encode i.op, encode i.args, encode i.affinity] rfl (by decide) rfl,
      required_encode hop, required_encode hargs, required_encode trivial⟩
  fits_of_decode {j i} h := by
    obtain ⟨_, _, _, -, hop, hargs, -⟩ := decode_instruction.1 h
    exact ⟨fits_of_required hop, fits_of_required hargs⟩

instance : Lossless α (Function X) where
  decode_encode {f} h := by
    have hbody : Sized.Fits f.body := h
    exact decode_function.2 ⟨_, _,
      parts?_eq _ [encode f.affinity, encode f.body] rfl (by decide) rfl,
      required_encode trivial, required_encode hbody⟩
  fits_of_decode {j f} h := by
    obtain ⟨_, _, -, -, hbody⟩ := decode_function.1 h
    have hfits : Sized.Fits f.body := fits_of_required hbody
    exact hfits

instance : Lossless α (Program X) where
  decode_encode {p} h := by
    have hfunctions : Sized.Fits p.functions := h
    exact decode_program.2 ⟨_, parts?_eq _ [encode p.functions] rfl (by decide) rfl,
      required_encode hfunctions⟩
  fits_of_decode {j p} h := by
    obtain ⟨_, -, hfunctions⟩ := decode_program.1 h
    have hfits : Sized.Fits p.functions := fits_of_required hfunctions
    exact hfits

end

/-! ## Lineages -/

instance : Sized Family := ⟨fun f => Sized.Fits f.parent ∧ Sized.Fits f.children⟩
instance : Sized Channel := ⟨fun _ => True⟩
instance : Sized SireRecord :=
  ⟨fun r => Sized.Fits r.sourcePos ∧ Sized.Fits r.dir ∧ Sized.Fits r.level⟩

theorem fits_words (xs : List UInt64) : Sized.Fits xs := fun _ _ => trivial

theorem ifPresent_word (o : Option UInt64) : ifPresent (some (encode o : Json α)) = some o :=
  ifPresent_encode (fun x h => by cases h) fun _ _ => trivial

instance : Lossless α Family where
  decode_encode {f} h := by
    obtain ⟨hparent, hchildren⟩ : Sized.Fits f.parent ∧ Sized.Fits f.children := h
    exact decode_family.2 ⟨_, _, _, _,
      parts?_eq _ [encode f.parent, encode f.children, encode f.birth, encode f.prevChan] rfl
        (by decide) rfl,
      ifPresent_encode (fun x h => by cases h) hparent, required_encode hchildren,
      required_encode trivial, ifPresent_word f.prevChan⟩
  fits_of_decode {j f} h := by
    obtain ⟨_, _, _, _, -, hparent, hchildren, -⟩ := decode_family.1 h
    exact ⟨fits_of_ifPresent hparent, fits_of_required hchildren⟩

instance : Lossless α Channel where
  decode_encode {c} h :=
    decode_channel.2 ⟨_, _, _, _,
      parts?_eq _ [encode c.ids, encode c.generations, encode c.ages, encode c.expirations] rfl
        (by decide) rfl,
      ifPresent_encode (fun x h => by cases h) fun ids _ => fits_words ids,
      required_encode (fits_words _), required_encode (fits_words _),
      required_encode (fits_words _)⟩
  fits_of_decode _ := trivial

instance : Lossless α SireRecord where
  decode_encode {r} h := by
    obtain ⟨hsource, hdir, hlevel⟩ :
      Sized.Fits r.sourcePos ∧ Sized.Fits r.dir ∧ Sized.Fits r.level := h
    exact decode_sireRecord.2 ⟨_, _, _, _, _, _, _,
      parts?_eq _ [encode r.sourcePos, encode r.dir, encode r.level, encode r.generations,
        encode r.ids, encode r.ages, encode r.prevChan] rfl (by decide) rfl,
      required_encode hsource, required_encode hdir, required_encode hlevel,
      required_encode (fits_words _), required_encode (fits_words _),
      required_encode (fits_words _), ifPresent_word r.prevChan⟩
  fits_of_decode {j r} h := by
    obtain ⟨_, _, _, _, _, _, _, -, hsource, hdir, hlevel, -⟩ := decode_sireRecord.1 h
    exact ⟨fits_of_required hsource, fits_of_required hdir, fits_of_required hlevel⟩

/-! ## The stored forms -/

/-- How values are written. A record is an object whose members are named like its fields, a tag or
a tick is a bare number, a choice is its name, and one that comes with something an object with one
member. -/
structure Written (α : Type) : Prop where
  word : ∀ n : UInt64, (encode n : Json α) = .int n.toNat
  absent : ∀ (τ : Type) [Form α τ], (encode (none : Option τ) : Json α) = .null
  present : ∀ (τ : Type) [Form α τ] (x : τ), (encode (some x) : Json α) = encode x
  list : ∀ (τ : Type) [Form α τ] (xs : List τ), (encode xs : Json α) = .arr (xs.map encode)
  tag : ∀ t : Tag, (encode t : Json α) = .int t.bits.toNat
  tick : ∀ t : Tick, (encode t : Json α) = .int t.count.toNat
  builtin : ∀ b : Builtin, (encode (.builtin b : Op FrameOp) : Json α) = .str b.name
  ext : ∀ op : FrameOp, (encode (.ext op : Op FrameOp) : Json α) = .obj [("Ext", encode op)]
  plain : ∀ act, (encode (FrameOp.plain act) : Json α) = .str act.form
  leveled : ∀ act level,
    (encode (FrameOp.leveled act level) : Json α) = .obj [(act.form, .int level)]
  instruction : ∀ i : Instruction FrameOp, (encode i : Json α) = .obj [("op", encode i.op),
    ("args", .arr [.int i.args.first, .int i.args.second, .int i.args.third]),
    ("affinity", encode i.affinity)]
  function : ∀ f : Function FrameOp, (encode f : Json α) =
    .obj [("affinity", encode f.affinity), ("body", encode f.body)]
  program : ∀ p : Program FrameOp, (encode p : Json α) = .obj [("functions", encode p.functions)]
  family : ∀ f : Family, (encode f : Json α) = .obj [("parent_pos", encode f.parent),
    ("child_pos", encode f.children.toList), ("birth_tick", encode f.birth),
    ("prev_chan", encode f.prevChan)]
  channel : ∀ c : Channel, (encode c : Json α) = .obj [("ids", encode c.ids),
    ("generations", encode c.generations), ("ages", encode c.ages),
    ("expirations", encode c.expirations)]
  sireRecord : ∀ r : SireRecord, (encode r : Json α) = .obj [("source_pos", .int r.sourcePos),
    ("dir", .int r.dir), ("level", .int r.level), ("generations", encode r.generations),
    ("ids", encode r.ids), ("ages", encode r.ages), ("prev_chan", encode r.prevChan)]

/-- Every value is read again as it was written, and so is every value that any document at all is
read as. -/
def Faithful (α τ : Type) [Form α τ] [Sized τ] : Prop :=
  (∀ x : τ, Sized.Fits x → decode (encode x : Json α) = some x) ∧
    ∀ (j : Json α) (x : τ), decode j = some x → decode (encode x : Json α) = some x

/-- A form that loses nothing is faithful in both directions. -/
theorem faithful (α τ : Type) [Form α τ] [Sized τ] [Lossless α τ] : Faithful α τ :=
  ⟨fun _ h => Lossless.decode_encode h,
    fun _ _ h => Lossless.decode_encode (Lossless.fits_of_decode h)⟩

/-- The stored forms of programs and lineages lose nothing. -/
theorem stored_read_back (α : Type) :
    Written α ∧ Faithful α (Program FrameOp) ∧ Faithful α SireRecord ∧ Faithful α Channel ∧
      Faithful α Family := by
  refine ⟨?_, faithful α _, faithful α _, faithful α _, faithful α _⟩
  constructor
  all_goals intros; rfl

/-- Operations of every kind, and numbers at the ends of their range. -/
def sampler : Program FrameOp :=
  ⟨[⟨⟨Word.top⟩, [⟨.builtin .nop, ⟨18446744073709551615, 0, 7⟩, ⟨0⟩⟩,
      ⟨.ext (.plain .queryIsLive), .zero, ⟨65536⟩⟩,
      ⟨.ext (.leveled .tryReproduce 18446744073709551615), ⟨1, 2, 3⟩, ⟨Word.top⟩⟩]⟩,
    ⟨⟨0⟩, []⟩]⟩

/-- A program in another hand: members out of order and unknown ones, an instruction as an array, an
operation with an empty payload. -/
def scrawl : Json Rat :=
  .obj [("author", .str "unknown"), ("functions", .arr [.obj [
    ("body", .arr [
      .arr [.obj [("Nop", .null)], .arr [.int 1, .int 2, .int 3], .int 9],
      .obj [("affinity", .int 0), ("op", .obj [("Ext", .obj [("QueryIsLive", .null)])]),
        ("args", .arr [.int 0, .int 0, .int 0])]]),
    ("affinity", .int 18446744073709551615)]])]

/-- Members that may be missing are, and the set of children is neither in order nor without
repetition. -/
def jottings : Json Rat :=
  .obj [("child_pos", .arr [.int 9, .int 2, .int 9]), ("birth_tick", .int 7)]

/-- The sampler is read as it was written, and what the other hand wrote is read as it is written
here. -/
theorem stored_read_back_sampler :
    Sized.Fits sampler ∧ decode (encode sampler : Json Rat) = some sampler ∧
    (∃ p : Program FrameOp, decode scrawl = some p ∧ p.instructionCount = 2 ∧
      decode (encode p : Json Rat) = some p) ∧
    ∃ f : Family, decode jottings = some f ∧ f.children.toList = [2, 9] ∧ f.parent = none ∧
      decode (encode f : Json Rat) = some f := by
  obtain ⟨-, hprogram, -, -, hfamily⟩ := stored_read_back Rat
  have hfits : Sized.Fits sampler := by
    simp [sampler, Sized.Fits, wordLimit, Operands.zero]
  have hscrawl : (decode scrawl : Option (Program FrameOp)) = some
      ⟨[⟨⟨Word.top⟩, [⟨.builtin .nop, ⟨1, 2, 3⟩, ⟨9⟩⟩,
        ⟨.ext (.plain .queryIsLive), .zero, ⟨0⟩⟩]⟩]⟩ := by
    decide +kernel
  have hjottings : (decode jottings : Option Family) =
      some ⟨none, .ofList [2, 9], ⟨7⟩, none⟩ := by decide +kernel
  exact ⟨hfits, hprogram.1 sampler hfits, ⟨_, hscrawl, rfl, hprogram.2 scrawl _ hscrawl⟩,
    _, hjottings, rfl, rfl, hfamily.2 jottings _ hjottings⟩

end Form

end Vivarium
