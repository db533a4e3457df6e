import Vivarium.Scalar
/-!
# Random words

The xoshiro256++ generator, started from one word through SplitMix64. A draw returns the word and
the generator that follows, so that the order of draws is part of every definition that draws.
-/
namespace Vivarium

structure Generator where
  s0 : UInt64
  s1 : UInt64
  s2 : UInt64
  s3 : UInt64
  deriving DecidableEq, Repr

namespace Generator

def rotate (x : UInt64) (k : UInt64) : UInt64 := (x <<< k) ||| (x >>> (64 - k))

/-- The distance between two states of the seeding sequence. -/
def stride : UInt64 := 0x9e3779b97f4a7c15

/-- The output of the seeding sequence at one of its states. -/
def scramble (x : UInt64) : UInt64 :=
  let z := (x ^^^ (x >>> 30)) * 0xbf58476d1ce4e5b9
  let z := (z ^^^ (z >>> 27)) * 0x94d049bb133111eb
  z ^^^ (z >>> 31)

def ofSeed (seed : UInt64) : Generator :=
  ⟨scramble (seed + stride), scramble (seed + 2 * stride),
    scramble (seed + 3 * stride), scramble (seed + 4 * stride)⟩

def next (g : Generator) : UInt64 × Generator :=
  let word := rotate (g.s0 + g.s3) 23 + g.s0
  let t := g.s1 <<< 17
  let s2 := g.s2 ^^^ g.s0
  let s3 := g.s3 ^^^ g.s1
  (word, ⟨g.s0 ^^^ s3, g.s1 ^^^ s2, s2 ^^^ t, rotate s3 45⟩)

/-- A draw from the unit interval: the upper 53 bits of a word as a fraction. -/
def unit {α : Type} [Scalar α] (g : Generator) : α × Generator :=
  let (word, g) := g.next
  (Scalar.ratio (word >>> 11).toNat 0x20000000000000, g)

/-- The next `n` words, first drawn first. -/
def draw : Nat → Generator → List UInt64 × Generator
  | 0, g => ([], g)
  | n + 1, g =>
    let (word, g) := g.next
    let (words, g) := draw n g
    (word :: words, g)

@[simp] theorem draw_zero (g : Generator) : draw 0 g = ([], g) := rfl

theorem length_draw (n : Nat) (g : Generator) : (draw n g).1.length = n := by
  induction n generalizing g with
  | zero => rfl
  | succ n ih => simp [draw, ih]

end Generator

end Vivarium
