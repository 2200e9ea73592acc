import Retype.Module.Vocabulary
import Retype.Order

/-!
# Markup

Which expressions produce markup, which functions return it, and which tags a
module uses. The test of a function is shallow: it looks at the returns that
stand directly in the body and at those one block below, in a branch, a
handler or a loop, and at no deeper ones.
-/

set_option autoImplicit false

namespace Retype

namespace Source

variable (src : Source)

mutual

/-- Whether an expression is an element, creates one, or may give one in a branch. -/
def isMarkup : Node → Bool
  | ⟨kind, named, start, stop, field, children⟩ =>
    if kind == "parenthesized_expression" then leadingMarkup children
    else if Node.isElementKind kind then true
    else if kind == "call_expression" then
      src.callee? ⟨kind, named, start, stop, field, children⟩ == some "createElement"
    else if kind == "ternary_expression" then
      fieldMarkup "consequence" children || fieldMarkup "alternative" children
    else if kind == "binary_expression" then fieldMarkup "right" children
    else false

def leadingMarkup : List Node → Bool
  | [] => false
  | c :: rest => if c.named then isMarkup c else leadingMarkup rest

def fieldMarkup (name : String) : List Node → Bool
  | [] => false
  | c :: rest => if c.field == name then isMarkup c else fieldMarkup name rest

end

def isMarkupReturn (stmt : Node) : Bool :=
  stmt.kind == "return_statement" && match stmt.parts with
    | [] => false
    | value :: _ => src.isMarkup value

end Source

namespace Node

/-- Statements directly in a node: those of its blocks, and a bare return. -/
def blockStatements (n : Node) : List Node :=
  n.namedChildren.flatMap fun c =>
    if c.isBlock then c.namedChildren
    else if c.kind == "return_statement" then [c]
    else []

def isClause (n : Node) : Bool :=
  ["else_clause", "catch_clause", "finally_clause"].contains n.kind

def innerStatements (stmt : Node) : List Node :=
  stmt.namedChildren.flatMap fun c =>
    if c.isBlock then c.namedChildren
    else if c.kind == "return_statement" then [c]
    else if c.isClause then c.blockStatements
    else []

end Node

namespace Source

variable (src : Source)

def returnsMarkup (fn : Node) : Bool :=
  match fn.child? "body" with
  | none => false
  | some body =>
    if body.isBlock then
      body.namedChildren.any fun stmt =>
        src.isMarkupReturn stmt || stmt.innerStatements.any src.isMarkupReturn
    else src.isMarkup body

def tagNames (root : Node) : List String :=
  Order.distinct ((root.walk.filter Node.isTag).filterMap fun tag =>
    (tag.child? "name").map src.textOf)

def hasMarkup (root : Node) : Bool :=
  root.walk.any fun n => n.isElement || (n.isCall && src.callee? n == some "createElement")

end Source

end Retype
