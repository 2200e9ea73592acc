import Retype.Module.Vocabulary

/-!
# Shapes of literals

What an initialiser says about the type of a slot: the shape of a literal, if
the expression is one.
-/

set_option autoImplicit false

namespace Retype

inductive LiteralShape where
  | string
  | number
  | boolean
  | null
  | undefined
  | array
  | object
  | function
  deriving DecidableEq, Repr, Inhabited

namespace LiteralShape

def text : LiteralShape → String
  | string => "string"
  | number => "number"
  | boolean => "boolean"
  | null => "null"
  | undefined => "undefined"
  | array => "array"
  | object => "object"
  | function => "function"

def all : List LiteralShape :=
  [string, number, boolean, null, undefined, array, object, function]

def ofText? (s : String) : Option LiteralShape := all.find? fun l => l.text == s

def ofUnary (src : Source) (n : Node) : Option LiteralShape :=
  let op := src.childText "operator" n
  let overNumber := (n.value? "argument").any fun a => a.kind == "number"
  if (op == "-" || op == "+") && overNumber then some number
  else if op == "!" then some boolean
  else none

def ofExpression (src : Source) (n : Node) : Option LiteralShape :=
  let n := n.unwrap
  let k := n.kind
  if k == "string" || k == "template_string" then some string
  else if k == "number" then some number
  else if k == "true" || k == "false" then some boolean
  else if k == "null" then some null
  else if k == "undefined" || (k == "identifier" && src.textOf n == "undefined") then some undefined
  else if k == "array" then some array
  else if k == "object" then some object
  else if k == "arrow_function" || k == "function_expression" || k == "function" then some function
  else if k == "unary_expression" then ofUnary src n
  else none

end LiteralShape

end Retype
