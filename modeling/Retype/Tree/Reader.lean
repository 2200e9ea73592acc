import Retype.Json.Value
import Retype.Tree.Source

/-!
# Trees in written form

A parser's result as a JSON value: whether the tree has errors, and its root. A
node is a list of its kind, its first and its last place, its field and its
children, of which the last parts may be missing; a single quote before the kind
marks a node without a name. No value at all stands for no tree.
-/

set_option autoImplicit false

namespace Retype

namespace Node

/-- A node's kind as written, with the mark of nodes without a name. -/
def kindOf (written : String) : String × Bool :=
  match written.toList with
  | '\'' :: rest => (String.ofList rest, false)
  | _ => (written, true)

mutual

def ofJson : Json → Option Node
  | .arr (.str kind :: .int start :: .int stop :: rest) =>
    let (kind, named) := kindOf kind
    match rest with
    | [] => some ⟨kind, named, start.toNat, stop.toNat, "", []⟩
    | [.str field] => some ⟨kind, named, start.toNat, stop.toNat, field, []⟩
    | [.str field, .arr children] =>
      (ofJsons children).map fun cs => ⟨kind, named, start.toNat, stop.toNat, field, cs⟩
    | _ => none
  | _ => none

def ofJsons : List Json → Option (List Node)
  | [] => some []
  | v :: rest => do return (← ofJson v) :: (← ofJsons rest)

end

end Node

def Tree.ofJson (v : Json) : Option Tree :=
  ((v.field? "root").bind Node.ofJson).map fun root =>
    ⟨root, ((v.field? "hasError").map Json.truth).getD false⟩

/-- Parses by looking a text up among trees that are already there. -/
def Tree.lookUp (trees : List ((String × String) × Tree)) (language : Language) (text : String) :
    Option Tree :=
  (trees.find? fun e => e.1 == (language.name, text)).map (·.2)

end Retype
