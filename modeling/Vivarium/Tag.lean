import Vivarium.Scalar
import Vivarium.Random
/-!
# Tags

A tag is a bit string used for approximate routing: the nearer two tags are in Hamming distance,
the better they match. Tags made here carry sixteen bits; a tag read from outside keeps the word
it was written with, and then its distances can exceed one.
-/
namespace Vivarium

structure Tag where
  bits : UInt64
  deriving DecidableEq, Repr, Hashable

namespace Tag

/-- Number of significant bits. -/
def width : Nat := 16

/-- The tag of the low bits of a word. -/
def new (word : UInt64) : Tag := ⟨word &&& 0xFFFF⟩

instance : Inhabited Tag := ⟨⟨0⟩⟩

def random (g : Generator) : Tag × Generator :=
  let (word, g) := g.next
  (new word, g)

/-- The complement within the tag width. -/
def toggled (t : Tag) : Tag := new (~~~t.bits)

/-- Number of ones among the lowest `n` bits of a word. -/
def ones : Nat → UInt64 → Nat
  | 0, _ => 0
  | n + 1, w => if w = 0 then 0 else (w &&& 1).toNat + ones n (w >>> 1)

/-- Number of differing bits. -/
def hamming (s t : Tag) : Nat := ones 64 (s.bits ^^^ t.bits)

variable {α : Type} [Scalar α]

/-- Mismatch as a fraction of the tag width. -/
def distance (s t : Tag) : α := Scalar.ratio (s.hamming t) width

def similarity (s t : Tag) : α := 1 - s.distance t

/-- The tag in binary, filled with zeros to the tag width. -/
def render (t : Tag) : String :=
  let digits := Nat.toDigits 2 t.bits.toNat
  String.ofList (List.replicate (width - digits.length) '0' ++ digits)

@[simp] theorem ones_zero (n : Nat) : ones n 0 = 0 := by cases n <;> simp [ones]

@[simp] theorem hamming_self (t : Tag) : t.hamming t = 0 := by simp [hamming]

end Tag

end Vivarium
