import Retype.Language
import Retype.Text.Digest
import Retype.Text.Utf8
import Retype.Tree.Node

/-!
# Source units

A source unit is one file: its path, language and octets, and the tree that the
parser made of them, if it ran. The text of a node is its span of the octets.
-/

set_option autoImplicit false

namespace Retype

structure Source where
  octets : Array UInt8
  deriving DecidableEq, Repr, Inhabited

namespace Source

def ofText (text : String) : Source := ⟨text.toUTF8.data⟩

def slice (src : Source) (start stop : Nat) : List UInt8 :=
  (src.octets.extract start stop).toList

def text (src : Source) : String := Utf8.decode src.octets.toList

def textAt (src : Source) (start stop : Nat) : String := Utf8.decode (src.slice start stop)

def textOf (src : Source) (n : Node) : String := src.textAt n.start n.stop

def textOf? (src : Source) : Option Node → String
  | none => ""
  | some n => src.textOf n

def childText (src : Source) (field : String) (n : Node) : String := src.textOf? (n.child? field)

def stringOf? (src : Source) (n : Node) : Option String :=
  if n.kind == "string" then
    let cs := (src.textOf n).toList
    some (if 2 ≤ cs.length then String.ofList (cs.drop 1).dropLast else "")
  else none

/-- The name that a key denotes: keys are identifiers or string literals. -/
def keyOf (src : Source) : Option Node → String
  | none => ""
  | some n => (src.stringOf? n).getD (src.textOf n)

def row (src : Source) (place : Nat) : Nat :=
  (src.slice 0 place).count 10

def digest (src : Source) : String := Digest.sha256 src.octets.toList

end Source

structure SourceUnit where
  path : String
  language : Language
  source : Source
  tree : Option Tree

namespace SourceUnit

def languageFor (path : String) : Language := (Language.ofPath? path).getD .javascript

def root? (u : SourceUnit) : Option Node := u.tree.map (·.root)

def hasError (u : SourceUnit) : Bool := match u.tree with
  | none => true
  | some t => t.hasError

end SourceUnit

end Retype
