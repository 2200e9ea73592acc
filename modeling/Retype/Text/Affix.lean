/-!
# Beginnings, ends and parts of a text

Whether a text begins with, ends with or holds another one, and what is left
of it after a beginning is taken away. All of it is said over characters.
-/

set_option autoImplicit false

namespace Retype.Affix

def afterOf : List Char → List Char → Option (List Char)
  | [], s => some s
  | _ :: _, [] => none
  | a :: lead, c :: s => if a = c then afterOf lead s else none

def after? (lead s : String) : Option String :=
  (afterOf lead.toList s.toList).map String.ofList

def begins (lead s : String) : Bool := (afterOf lead.toList s.toList).isSome

def ends (tail s : String) : Bool :=
  (afterOf tail.toList.reverse s.toList.reverse).isSome

def occursIn (part : List Char) : List Char → Bool
  | [] => part.isEmpty
  | c :: s => (afterOf part (c :: s)).isSome || occursIn part s

def occurs (part s : String) : Bool := occursIn part.toList s.toList

def exchange (old new : Char) (s : String) : String :=
  String.ofList (s.toList.map fun c => if c = old then new else c)

end Retype.Affix
