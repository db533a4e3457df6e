import Vivarium.Json
import Vivarium.Scalar.Binary64
/-!
# Exact notation

Documents as text whose numbers survive every reader, also one that holds all numbers in binary
floating point. Whole numbers below two to the fifty-third are written in decimal; larger ones are
decimal strings. Amounts are written as whole numbers where that is exact, else as a string of
their sixteen hexadecimal digits, and those that are not finite by name.
-/
namespace Vivarium

namespace Json

/-- The bound below which every whole number is an amount. -/
def exactLimit : Nat := 0x20000000000000

/-- A character between quotes: control characters, the quote and the backslash are escaped. -/
def quotedChar (c : Char) : List Char :=
  let backslash := Char.ofNat 0x5c
  if c.toNat = 0x22 ∨ c.toNat = 0x5c then [backslash, c]
  else if c.toNat < 0x20 then
    backslash :: 'u' :: '0' :: '0' :: Nat.digitChar (c.toNat / 16) :: [Nat.digitChar (c.toNat % 16)]
  else [c]

def quoted (s : String) : String := "\"" ++ String.ofList (s.toList.flatMap quotedChar) ++ "\""

/-- The sixteen hexadecimal digits of an amount. -/
def bitsText (x : Float) : String :=
  let digits := Nat.toDigits 16 x.toBits.toNat
  "0x" ++ String.ofList (List.replicate (16 - digits.length) '0' ++ digits)

def intText (n : Int) : String :=
  if n.natAbs < exactLimit then Int.repr n else quoted (Int.repr n)

def realText (x : Float) : String :=
  if x.isNaN then quoted "nan"
  else if x.isInf then quoted (if 0 < x then "inf" else "-inf")
  else
    let n := Binary64.whole x
    if n.natAbs < exactLimit ∧ Float.ofInt n == x then Int.repr n else quoted (bitsText x)

mutual

/-- A document as text. -/
def text : Json Float → String
  | null => "null"
  | bool b => if b then "true" else "false"
  | int n => intText n
  | real x => realText x
  | str s => quoted s
  | arr items => "[" ++ ",".intercalate (itemTexts items) ++ "]"
  | obj members => "\x7b" ++ ",".intercalate (memberTexts members) ++ "\x7d"

def itemTexts : List (Json Float) → List String
  | [] => []
  | j :: rest => text j :: itemTexts rest

def memberTexts : List (String × Json Float) → List String
  | [] => []
  | (name, j) :: rest => (quoted name ++ ":" ++ text j) :: memberTexts rest

end

/-- The value of a hexadecimal digit; of other characters, zero. -/
def hexDigit (c : Char) : Nat :=
  if c.isDigit then c.toNat - 0x30
  else if 'a' ≤ c ∧ c ≤ 'f' then c.toNat - 0x57
  else if 'A' ≤ c ∧ c ≤ 'F' then c.toNat - 0x37
  else 0

/-- The number that a string stands for. -/
def ofText? (s : String) : Option (Json Float) :=
  match s with
  | "nan" => some (real (0 / 0))
  | "inf" => some (real (1 / 0))
  | "-inf" => some (real (-1 / 0))
  | _ =>
    match s.toList with
    | '0' :: 'x' :: digits =>
      some (real (Float.ofBits (UInt64.ofNat (digits.foldl (fun n c => 16 * n + hexDigit c) 0))))
    | _ => s.toInt?.map int

/-- A number, or a string that stands for one, as a number; anything else as it is. -/
def plain (j : Json Float) : Json Float :=
  match j with
  | str s => (ofText? s).getD j
  | _ => j

/-- The count that a document stands for. -/
def count? (j : Json Float) : Option Nat :=
  match j.plain with
  | int n => if 0 ≤ n then some n.toNat else none
  | _ => none

/-- The amount that a document stands for. -/
def amount? (j : Json Float) : Option Float :=
  match j.plain with
  | int n => some (Float.ofInt n)
  | real x => some x
  | _ => none

end Json

end Vivarium
