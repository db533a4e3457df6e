import Vivarium.FrameOp
import Vivarium.Json.Form
import Vivarium.Machine.Basic
/-!
# Forms of programs and machines

Operations are stored by name, those with a level as a choice that carries it, and extensions
inside the choice `Ext`. A memory is stored as an object whose member names are addresses.
-/
namespace Vivarium

open Form

variable {α : Type}

instance : Form α Tag where
  encode t := encode t.bits
  decode j := (decode j).map Tag.mk

instance : Form α FrameOp where
  encode
    | .plain act => .str act.form
    | .leveled act level => .obj [(act.form, encode level)]
  decode j :=
    match j.plainChoice? with
    | some name => (PlainAct.all.find? (·.form == name)).map .plain
    | none => do
      let (name, payload) ← j.choice?
      let act ← LeveledAct.all.find? (·.form == name)
      pure (.leveled act (← required payload))

/-- The choice that stands for an extension. -/
def extensionForm : String := "Ext"

instance {X : Type} [Form α X] : Form α (Op X) where
  encode
    | .builtin b => .str b.name
    | .ext x => .obj [(extensionForm, encode x)]
  decode j := do
    let (name, payload) ← j.choice?
    if name = extensionForm then
      pure (.ext (← required payload))
    else do
      let name ← j.plainChoice?
      (Builtin.all.find? (·.name == name)).map .builtin

instance : Form α Operands where
  encode a := encode [a.first, a.second, a.third]
  decode j := do
    match ← decode j with
    | [first, second, third] => pure ⟨first, second, third⟩
    | _ => none

section
variable {X : Type} [Form α X]

instance : Form α (Instruction X) where
  encode i := .obj [("op", encode i.op), ("args", encode i.args), ("affinity", encode i.affinity)]
  decode j := do
    let [op, args, affinity] ← j.parts? ["op", "args", "affinity"] | none
    pure ⟨← required op, ← required args, ← required affinity⟩

instance : Form α (Function X) where
  encode f := .obj [("affinity", encode f.affinity), ("body", encode f.body)]
  decode j := do
    let [affinity, body] ← j.parts? ["affinity", "body"] | none
    pure ⟨← required affinity, ← required body⟩

/-- The stored form does not ask for a function. -/
instance : Form α (Program X) where
  encode p := .obj [("functions", encode p.functions)]
  decode j := do
    let [functions] ← j.parts? ["functions"] | none
    pure ⟨← required functions⟩

end

/-- Addresses as member names: decimal, without leading zeros. -/
def addressOf? (name : String) : Option Nat := do
  let n ← name.toNat?
  if n < wordLimit ∧ Nat.repr n = name then some n else none

instance : Form α BlockKind where
  encode
    | .basic => .str "Basic"
    | .loop => .str "Loop"
  decode j :=
    match j.plainChoice? with
    | some "Basic" => some .basic
    | some "Loop" => some .loop
    | _ => none

instance : Form α Block where
  encode b := .obj [("begin", encode b.opener), ("end", encode b.close), ("kind", encode b.kind)]
  decode j := do
    let [opener, close, kind] ← j.parts? ["begin", "end", "kind"] | none
    pure ⟨← required opener, ← required close, ← required kind⟩

variable [Scalar α]

instance : Form α (Memory α) where
  encode m := .obj (m.cells.map fun c => (Nat.repr c.1, encode c.2))
  decode
    | .obj members => do
      let cells ← members.mapM fun m => do pure (← addressOf? m.1, ← decode m.2)
      pure (.ofList cells)
    | _ => none

/-- Blocks are stored outermost first. -/
instance : Form α (CallFrame α) where
  encode f := .obj [
    ("local", encode f.locals), ("input", encode f.inputs), ("output", encode f.outputs),
    ("func_ptr", encode f.function), ("inst_ptr", encode f.pointer),
    ("blocks", encode f.blocks.reverse)]
  decode j := do
    let [locals, inputs, outputs, function, pointer, blocks] ←
      j.parts? ["local", "input", "output", "func_ptr", "inst_ptr", "blocks"] | none
    let blocks : List Block ← required blocks
    pure ⟨← required locals, ← required inputs, ← required outputs, ← required function,
      ← required pointer, blocks.reverse⟩

instance : Form α (Event α) where
  encode e := .obj [("affinity", encode e.affinity), ("msg", encode e.payload)]
  decode j := do
    let [affinity, payload] ← j.parts? ["affinity", "msg"] | none
    pure ⟨← required affinity, ← required payload⟩

instance : Form α (Limits α) where
  encode l := .obj [
    ("max_cores", encode l.maxThreads), ("max_call_depth", encode l.maxCallDepth),
    ("affinity_threshold", encode l.threshold),
    ("regulator_duration", encode l.regulatorDuration)]
  decode j := do
    let [maxThreads, maxCallDepth, threshold, regulatorDuration] ←
      j.parts? ["max_cores", "max_call_depth", "affinity_threshold", "regulator_duration"] | none
    pure ⟨← required maxThreads, ← required maxCallDepth, ← required threshold,
      ← required regulatorDuration⟩

instance : Form α (Regulator α) where
  encode r := .obj [("value", encode r.value), ("countdown", encode r.countdown)]
  decode j := do
    let [value, countdown] ← j.parts? ["value", "countdown"] | none
    pure ⟨← required value, ← required countdown⟩

end Vivarium
