import Vivarium.Proofs.Json.Lossless
import Vivarium.Proofs.Tag
import Vivarium.Proofs.World.Sound
/-!
# Readers check nothing

Tags, grids and programs are made by functions that hold them within bounds. A reader of their stored
forms takes the numbers and lists as they stand in the document, so what it returns is within the bounds
exactly if the document is. Main statement: which documents are read, what stands in them then, and
which laws of tags are lost with a tag that is too wide.
-/
namespace Vivarium

open Form

variable {α τ : Type}

/-! ## What stands in a document -/

/-- The whole number `n` stands somewhere in the document. -/
inductive Json.Mentions (n : Nat) : Json α → Prop
  | here : Mentions n (.int n)
  | item {items : List (Json α)} {j : Json α} : j ∈ items → Mentions n j → Mentions n (.arr items)
  | member {members : List (String × Json α)} {name : String} {j : Json α} :
      (name, j) ∈ members → Mentions n j → Mentions n (.obj members)

/-- The parts of a record stand in it. -/
theorem Json.mentions_of_parts? {names : List String} {j : Json α} {parts : List (Option (Json α))}
    (h : j.parts? names = some parts) {v : Json α} (hv : some v ∈ parts) {n : Nat}
    (hn : v.Mentions n) : j.Mentions n := by
  cases j with
  | obj members =>
    obtain rfl := Option.some.inj h
    obtain ⟨name, -, hname⟩ := List.mem_map.1 hv
    obtain ⟨before, behind, rfl, -⟩ := List.lookup_eq_some_iff.1 hname
    exact .member (List.mem_append_right before List.mem_cons_self) hn
  | arr items =>
    simp only [Json.parts?, Option.ite_none_right_eq_some, Option.some.injEq] at h
    obtain ⟨-, rfl⟩ := h
    obtain ⟨w, hw, he⟩ := List.mem_map.1 hv
    obtain rfl := Option.some.inj he
    exact .item hw hn
  | _ => cases h

namespace Form

/-- Values that hold tags; operations hold none. -/
class Tagged (τ : Type) where
  tags : τ → List Tag

/-- A reader that takes its tags from the document. -/
class Quoting (α τ : Type) [Form α τ] [Tagged τ] : Prop where
  mentions : ∀ {j : Json α} {x : τ}, decode j = some x → ∀ t ∈ Tagged.tags x, j.Mentions t.bits.toNat

/-! ## Numbers and lists -/

/-- Any 64-bit word is read as a tag, wide or not. -/
theorem decode_tag {j : Json α} {t : Tag} : decode j = some t ↔ j = .int t.bits.toNat := by
  constructor
  · intro h
    obtain ⟨word, hword, rfl⟩ := Option.map_eq_some_iff.1 h
    obtain ⟨n, hn, rfl⟩ := Option.map_eq_some_iff.1 hword
    obtain ⟨rfl, hlt⟩ := boundedNat_eq_some.1 hn
    rw [UInt64.toNat_ofNat_of_lt' hlt]
  · rintro rfl
    exact Lossless.decode_encode (x := t) trivial

theorem decode_half {j : Json α} {w : UInt32} : decode j = some w ↔ j = .int w.toNat := by
  constructor
  · intro h
    obtain ⟨n, hn, rfl⟩ := Option.map_eq_some_iff.1 h
    obtain ⟨rfl, hlt⟩ := boundedNat_eq_some.1 hn
    rw [UInt32.toNat_ofNat_of_lt' hlt]
  · rintro rfl
    have hw : boundedNat halfLimit (.int w.toNat : Json α) = some w.toNat :=
      boundedNat_eq_some.2 ⟨rfl, w.toNat_lt⟩
    change (boundedNat _ _).map _ = _
    rw [hw, Option.map_some, UInt32.ofNat_toNat]

theorem required_half {part : Option (Json α)} {w : UInt32} :
    required part = some w ↔ part = some (.int w.toNat) := by
  rw [required, Option.bind_eq_some_iff]
  constructor
  · rintro ⟨v, rfl, hv⟩
    rw [decode_half.1 hv]
  · rintro rfl
    exact ⟨_, rfl, decode_half.2 rfl⟩

/-! ## Tags inside -/

instance : Tagged Tag := ⟨fun t => [t]⟩
instance [Tagged τ] : Tagged (List τ) := ⟨fun xs => xs.flatMap Tagged.tags⟩

instance : Quoting α Tag where
  mentions h t ht := by
    obtain rfl := List.mem_singleton.1 ht
    rw [decode_tag.1 h]
    exact .here

instance [Form α τ] [Tagged τ] [Quoting α τ] : Quoting α (List τ) where
  mentions h t ht := by
    obtain ⟨items, rfl, hitems⟩ := decode_list.1 h
    obtain ⟨x, hx, ht⟩ := List.mem_flatMap.1 ht
    obtain ⟨j, hj, hread⟩ := exists_item hitems hx
    exact .item hj (Quoting.mentions hread t ht)

/-- The tags of a member stand in the record. -/
theorem mentions_of_required [Form α τ] [Tagged τ] [Quoting α τ] {names : List String} {j : Json α}
    {parts : List (Option (Json α))} (h : j.parts? names = some parts) {part : Option (Json α)}
    (hpart : part ∈ parts) {x : τ} (hx : required part = some x) {t : Tag} (ht : t ∈ Tagged.tags x) :
    j.Mentions t.bits.toNat := by
  obtain ⟨v, rfl, hv⟩ := Option.bind_eq_some_iff.1 hx
  exact Json.mentions_of_parts? h hpart (Quoting.mentions hv t ht)

section

variable {X : Type} [Form α X]

instance : Tagged (Instruction X) := ⟨fun i => [i.affinity]⟩
instance : Tagged (Function X) := ⟨fun f => f.affinity :: Tagged.tags f.body⟩
instance : Tagged (Program X) := ⟨fun p => Tagged.tags p.functions⟩

instance : Quoting α (Instruction X) where
  mentions h t ht := by
    obtain ⟨op, args, affinity, hparts, -, -, haffinity⟩ := decode_instruction.1 h
    exact mentions_of_required hparts (by simp) haffinity ht

instance : Quoting α (Function X) where
  mentions {j f} h t ht := by
    obtain ⟨affinity, body, hparts, haffinity, hbody⟩ := decode_function.1 h
    rcases List.mem_cons.1 ht with rfl | ht
    · exact mentions_of_required hparts (by simp) haffinity (List.mem_singleton_self f.affinity)
    · exact mentions_of_required hparts (by simp) hbody ht

instance : Quoting α (Program X) where
  mentions h t ht := by
    obtain ⟨functions, hparts, hfunctions⟩ := decode_program.1 h
    exact mentions_of_required hparts (by simp) hfunctions ht

end

section

variable [Scalar α]

instance : Tagged (Event α) := ⟨fun e => [e.affinity]⟩
instance : Tagged (Message α) := ⟨fun m => [m.affinity]⟩

theorem decode_event {j : Json α} {e : Event α} (h : decode j = some e) :
    ∃ affinity payload, j.parts? ["affinity", "msg"] = some [affinity, payload] ∧
      required affinity = some e.affinity ∧ required payload = some e.payload := by
  obtain ⟨parts, hparts, h⟩ := Option.bind_eq_some_iff.1 h
  split at h
  · obtain ⟨_, haffinity, h⟩ := Option.bind_eq_some_iff.1 h
    obtain ⟨_, hpayload, h⟩ := Option.bind_eq_some_iff.1 h
    cases h
    exact ⟨_, _, hparts, haffinity, hpayload⟩
  · cases h

theorem decode_message {j : Json α} {m : Message α} (h : decode j = some m) :
    ∃ kind affinity payload fromPos fromFacing,
      j.parts? ["kind", "affinity", "payload", "from_pos", "from_facing"] =
        some [kind, affinity, payload, fromPos, fromFacing] ∧
      required kind = some m.kind ∧ required affinity = some m.affinity ∧
      required payload = some m.payload ∧ required fromPos = some m.fromPos ∧
      required fromFacing = some m.fromFacing := by
  obtain ⟨parts, hparts, h⟩ := Option.bind_eq_some_iff.1 h
  split at h
  · obtain ⟨_, hkind, h⟩ := Option.bind_eq_some_iff.1 h
    obtain ⟨_, haffinity, h⟩ := Option.bind_eq_some_iff.1 h
    obtain ⟨_, hpayload, h⟩ := Option.bind_eq_some_iff.1 h
    obtain ⟨_, hfromPos, h⟩ := Option.bind_eq_some_iff.1 h
    obtain ⟨_, hfromFacing, h⟩ := Option.bind_eq_some_iff.1 h
    cases h
    exact ⟨_, _, _, _, _, hparts, hkind, haffinity, hpayload, hfromPos, hfromFacing⟩
  · cases h

instance : Quoting α (Event α) where
  mentions h t ht := by
    obtain ⟨affinity, payload, hparts, haffinity, -⟩ := decode_event h
    exact mentions_of_required hparts (by simp) haffinity ht

instance : Quoting α (Message α) where
  mentions h t ht := by
    obtain ⟨kind, affinity, payload, fromPos, fromFacing, hparts, -, haffinity, -, -, -⟩ :=
      decode_message h
    exact mentions_of_required hparts (by simp) haffinity ht

end

/-! ## Grids and programs -/

/-- Sides are read as they are written, zero included. -/
theorem decode_grid {j : Json α} {g : Grid} :
    decode j = some g ↔ ∃ width height, j.parts? ["width", "height"] = some [width, height] ∧
      required width = some g.width ∧ required height = some g.height := by
  constructor
  · intro h
    obtain ⟨parts, hparts, h⟩ := Option.bind_eq_some_iff.1 h
    split at h
    · obtain ⟨_, hwidth, h⟩ := Option.bind_eq_some_iff.1 h
      obtain ⟨_, hheight, h⟩ := Option.bind_eq_some_iff.1 h
      cases h
      exact ⟨_, _, hparts, hwidth, hheight⟩
    · cases h
  · rintro ⟨width, height, hparts, hwidth, hheight⟩
    simp only [decode, hparts, hwidth, hheight, Option.bind_eq_bind, Option.bind_some]
    rfl

/-- A grid is read from any two words, also from zeros. -/
theorem decode_grid_iff {j : Json α} {g : Grid} : decode j = some g ↔
    j.parts? ["width", "height"] =
      some [some (.int g.width.toNat), some (.int g.height.toNat)] := by
  simp [decode_grid, required_half]

/-- A program is read from any list of functions, also from an empty one. -/
theorem decode_program_iff {X : Type} [Form α X] {j : Json α} {p : Program X} :
    decode j = some p ↔ ∃ items, j.parts? ["functions"] = some [some (.arr items)] ∧
      List.Forall₂ (fun item f => decode item = some f) items p.functions := by
  rw [decode_program]
  constructor
  · rintro ⟨functions, hparts, hfunctions⟩
    obtain ⟨v, rfl, hv⟩ := Option.bind_eq_some_iff.1 hfunctions
    obtain ⟨items, rfl, hitems⟩ := decode_list.1 hv
    exact ⟨items, hparts, hitems⟩
  · rintro ⟨items, hparts, hitems⟩
    exact ⟨_, hparts, decode_list.2 ⟨items, rfl, hitems⟩⟩

/-! ## What is read unchecked -/

/-- Who makes a grid is asked for sides that are not zero. -/
theorem grid_new_eq_ok_iff {width height : UInt32} {g : Grid} :
    Grid.new width height = .ok g ↔ g = ⟨width, height⟩ ∧ g.width ≠ 0 ∧ g.height ≠ 0 := by
  rw [Grid.new, ite_error_eq_ok, not_or, Except.ok.injEq]
  constructor
  · rintro ⟨hne, rfl⟩
    exact ⟨rfl, hne⟩
  · rintro ⟨rfl, hne⟩
    exact ⟨hne, rfl⟩

/-- Who makes a program is asked for at least one function. -/
theorem program_new_eq_ok_iff {X : Type} {functions : List (Function X)} {p : Program X} :
    Program.new functions = .ok p ↔ p = ⟨functions⟩ ∧ p.functions ≠ [] := by
  rw [Program.new, ite_error_eq_ok, List.isEmpty_iff, Except.ok.injEq]
  constructor
  · rintro ⟨hne, rfl⟩
    exact ⟨rfl, hne⟩
  · rintro ⟨rfl, hne⟩
    exact ⟨hne, rfl⟩

/-- Makers and readers of tags, grids and programs. A tag is within its laws exactly if it could be made;
grids without tiles and programs without functions are not made. Readers take every word for a tag, every
two words for a grid and every list of functions for a program, and all tags from the document. -/
theorem reads_unchecked (α : Type) [Scalar α] :
    (∀ t : Tag, t.LawfulIffNarrow) ∧
    (∀ (j : Json α) (t : Tag), decode j = some t ↔ j = .int t.bits.toNat) ∧
    (Quoting α (Instruction FrameOp) ∧ Quoting α (Function FrameOp) ∧ Quoting α (Program FrameOp) ∧
      Quoting α (Message α) ∧ Quoting α (Event α)) ∧
    (∀ (width height : UInt32) (g : Grid), Grid.new width height = .ok g ↔
      g = ⟨width, height⟩ ∧ g.width ≠ 0 ∧ g.height ≠ 0) ∧
    (∀ (j : Json α) (g : Grid), decode j = some g ↔ j.parts? ["width", "height"] =
      some [some (.int g.width.toNat), some (.int g.height.toNat)]) ∧
    (∀ (functions : List (Function FrameOp)) (p : Program FrameOp),
      Program.new functions = .ok p ↔ p = ⟨functions⟩ ∧ p.functions ≠ []) ∧
    ∀ (j : Json α) (p : Program FrameOp), decode j = some p ↔
      ∃ items, j.parts? ["functions"] = some [some (.arr items)] ∧
        List.Forall₂ (fun item f => decode item = some f) items p.functions :=
  ⟨Tag.lawfulIffNarrow, fun _ _ => decode_tag,
    ⟨inferInstance, inferInstance, inferInstance, inferInstance, inferInstance⟩,
    fun _ _ _ => grid_new_eq_ok_iff, fun _ _ => decode_grid_iff,
    fun _ _ => program_new_eq_ok_iff, fun _ _ => decode_program_iff⟩

/-- A program whose function has a tag that is too wide, and its instruction one that is not. -/
def leaflet : Json Rat :=
  .obj [("functions", .arr [.obj [("affinity", .int 70000), ("body", .arr [
    .obj [("op", .str "Nop"), ("args", .arr [.int 0, .int 0, .int 0]), ("affinity", .int 9)]])]])]

/-- Both tags of the leaflet stand in it, and a tag that is not too wide keeps to the bounds with another. -/
theorem reads_unchecked_leaflet :
    (∃ p : Program FrameOp, decode leaflet = some p ∧ Tagged.tags p = [⟨70000⟩, ⟨9⟩] ∧
      leaflet.Mentions 70000 ∧ leaflet.Mentions 9) ∧
    (Tag.new 9).toggled.toggled = .new 9 ∧ (Tag.new 9).hamming (.new 6) ≤ Tag.width ∧
    ((Tag.new 9).distance (.new 6) : Float) ≤ 1 := by
  obtain ⟨hlaws, -, ⟨-, -, hquoting, -, -⟩, -⟩ := reads_unchecked Rat
  have hread : (decode leaflet : Option (Program FrameOp)) =
      some ⟨[⟨⟨70000⟩, [⟨.builtin .nop, .zero, ⟨9⟩⟩]⟩]⟩ := by decide +kernel
  have hnarrow : (Tag.new 9).Narrow := by decide
  exact ⟨⟨_, hread, rfl, hquoting.mentions hread ⟨70000⟩ (by decide),
      hquoting.mentions hread ⟨9⟩ (by decide)⟩,
    (hlaws _).involution.2 hnarrow, (hlaws _).hamming.2 hnarrow _ (.new 6),
    ((hlaws _).distance.2 hnarrow _ (.new 6)).2⟩

/-- A tag with all bits of its word is read, and a grid without tiles, and a program without functions. -/
theorem forgeries_read :
    (∃ t : Tag, decode (.int 0xFFFFFFFFFFFFFFFF : Json Float) = some t ∧
      t.hamming (.new 0) = 64 ∧ ¬ (t.distance (.new 0) : Float) ≤ 1 ∧ t.toggled.toggled ≠ t ∧
      t.hamming t.toggled ≠ Tag.width) ∧
    (∃ g : Grid, decode (.obj [("width", .int 0), ("height", .int 3)] : Json Float) = some g ∧
      g.width = 0) ∧
    ∃ p : Program FrameOp, decode (.obj [("functions", .arr [])] : Json Float) = some p ∧
      p.functions = [] := by
  refine ⟨⟨⟨Word.top⟩, ?_, ?_⟩, ⟨⟨0, 3⟩, ?_, rfl⟩, ⟨⟨[]⟩, ?_, rfl⟩⟩
  all_goals decide +kernel

end Form

end Vivarium
