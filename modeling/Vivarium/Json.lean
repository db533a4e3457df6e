import Vivarium.Scalar
/-!
# Documents

Values as they are stored and exchanged: the six kinds of JSON, with whole numbers kept apart from
other amounts. Members of an object have distinct names, and their order has no meaning.
-/
namespace Vivarium

inductive Json (α : Type) where
  | null
  | bool (b : Bool)
  | int (n : Int)
  | real (x : α)
  | str (s : String)
  | arr (items : List (Json α))
  | obj (members : List (String × Json α))

namespace Json

variable {α : Type}

instance : Inhabited (Json α) := ⟨null⟩

def ofNat (n : Nat) : Json α := int n

/-- The member of an object. -/
def member? : Json α → String → Option (Json α)
  | obj members, name => members.lookup name
  | _, _ => none

/-- The parts of a record: the named members of an object, where a missing one is `none`, or the
items of an array that has one for every name. -/
def parts? (names : List String) : Json α → Option (List (Option (Json α)))
  | obj members => some (names.map fun name => members.lookup name)
  | arr items => if items.length = names.length then some (items.map some) else none
  | _ => none

/-- The name of a choice and what comes with it: a string, or an object with a single member. -/
def choice? : Json α → Option (String × Option (Json α))
  | str name => some (name, none)
  | obj [(name, payload)] => some (name, some payload)
  | _ => none

/-- The name of a choice that comes with nothing. -/
def plainChoice? (j : Json α) : Option String :=
  match j.choice? with
  | some (name, none) => some name
  | some (name, some null) => some name
  | _ => none

end Json

end Vivarium
