import Retype.Keyed

/-!
# JSON values

Integers and floating-point numbers are told apart, and an object keeps its
members in the order in which they were written.
-/

set_option autoImplicit false

namespace Retype

inductive Json where
  | null
  | bool (b : Bool)
  | int (n : Int)
  | float (x : Float)
  | str (s : String)
  | arr (items : List Json)
  | obj (members : List (String × Json))
  deriving Inhabited, BEq, Repr

namespace Json

def field? (key : String) : Json → Option Json
  | obj members => Keyed.get? key members
  | _ => none

/-- What a condition makes of a value: nothing, zero and emptiness are false. -/
def truth : Json → Bool
  | null => false
  | bool b => b
  | int n => n ≠ 0
  | float x => !(x == 0)
  | str s => !s.isEmpty
  | arr items => !items.isEmpty
  | obj members => !members.isEmpty

def texts (xs : List String) : Json := arr (xs.map str)

def nat (n : Nat) : Json := int n

def ofOption {α : Type} (f : α → Json) : Option α → Json
  | none => null
  | some a => f a

end Json

end Retype
