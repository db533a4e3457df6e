import Vivarium.Json
/-!
# Forms

The stored form of a type: how its values are written as documents, and which documents it reads.
Records read their members in any order and ignore others; a missing member is an error unless it
is optional. Whole numbers are read only within the range of their type.
-/
namespace Vivarium

class Form (α τ : Type) where
  encode : τ → Json α
  decode : Json α → Option τ

namespace Form

variable {α τ : Type}

/-- A member that has to be there. -/
def required [Form α τ] (part : Option (Json α)) : Option τ := part.bind decode

/-- A member that may be missing. -/
def ifPresent [Form α (Option τ)] : Option (Json α) → Option (Option τ)
  | none => some none
  | some j => decode j

/-- A whole number below a limit. -/
def boundedNat (limit : Nat) : Json α → Option Nat
  | .int n => if 0 ≤ n ∧ n < limit then some n.toNat else none
  | _ => none

/-- Number of 64-bit words. -/
def wordLimit : Nat := 0x10000000000000000

/-- Number of 32-bit words. -/
def halfLimit : Nat := 0x100000000

instance : Form α Bool where
  encode := .bool
  decode
    | .bool b => some b
    | _ => none

/-- Counts and places are stored as 64-bit words. -/
instance : Form α Nat where
  encode n := .int n
  decode := boundedNat wordLimit

instance : Form α UInt64 where
  encode n := .int n.toNat
  decode j := (boundedNat wordLimit j).map UInt64.ofNat

instance : Form α UInt32 where
  encode n := .int n.toNat
  decode j := (boundedNat halfLimit j).map UInt32.ofNat

/-- The amount nearest to a whole number. -/
def amountOfInt [Scalar α] (n : Int) : α :=
  if n < 0 then 0 - Scalar.ofNat n.natAbs else Scalar.ofNat n.natAbs

/-- Amounts that are not finite have no stored form and are written as `null`. -/
instance (priority := low) [Scalar α] : Form α α where
  encode x := if Scalar.isFinite x then .real x else .null
  decode
    | .int n => some (amountOfInt n)
    | .real x => some x
    | _ => none

instance [Form α τ] : Form α (Option τ) where
  encode
    | none => .null
    | some x => encode x
  decode
    | .null => some none
    | j => (decode j).map some

instance [Form α τ] : Form α (List τ) where
  encode xs := .arr (xs.map encode)
  decode
    | .arr items => items.mapM decode
    | _ => none

end Form

end Vivarium
