import Retype.Tree.Source

/-!
# Vocabulary of module trees

The kinds of nodes that the analysis tells apart, and how a call is read: the
name of what is called, its arguments, and whether it is a hook.
-/

set_option autoImplicit false

namespace Retype

namespace Node

def isFunction (n : Node) : Bool :=
  ["function_declaration", "function_expression", "function", "arrow_function",
    "generator_function_declaration"].contains n.kind

def isClass (n : Node) : Bool :=
  ["class_declaration", "class", "abstract_class_declaration"].contains n.kind

def isElementKind (kind : String) : Bool :=
  ["jsx_element", "jsx_self_closing_element", "jsx_fragment"].contains kind

def isElement (n : Node) : Bool := isElementKind n.kind

def isTag (n : Node) : Bool :=
  n.kind == "jsx_opening_element" || n.kind == "jsx_self_closing_element"

def isComment (n : Node) : Bool := n.kind == "comment"

def isCall (n : Node) : Bool := n.kind == "call_expression"

def isVariables (n : Node) : Bool :=
  n.kind == "lexical_declaration" || n.kind == "variable_declaration"

def isField (n : Node) : Bool :=
  n.kind == "field_definition" || n.kind == "public_field_definition"

def isBlock (n : Node) : Bool := n.kind == "statement_block"

/-- Named children that are not comments. -/
def parts (n : Node) : List Node := n.namedChildren.filter fun c => !c.isComment

def arguments (call : Node) : List Node :=
  match call.child? "arguments" with
  | none => []
  | some list => list.parts

theorem sizeOf_mem_arguments {n a : Node} (h : a ∈ n.arguments) : sizeOf a < sizeOf n := by
  unfold arguments at h
  split at h
  · simp at h
  · next list hl =>
    have h1 := sizeOf_child? hl
    have h2 := sizeOf_mem_named (List.mem_filter.1 h).1
    omega

end Node

def nonEmpty (s : String) : Option String := if s.isEmpty then none else some s

namespace Source

variable (src : Source)

def nameOf (n : Node) : Option String := nonEmpty (src.childText "name" n)

/-- What a call calls: `foo(...)` and `object.foo(...)` both call `foo`. -/
def callee? (call : Node) : Option String :=
  match call.child? "function" with
  | none => none
  | some fn =>
    if fn.kind == "identifier" then some (src.textOf fn)
    else if fn.kind == "member_expression" then
      match fn.child? "object", fn.child? "property" with
      | some object, some property =>
        if object.kind == "identifier" then some (src.textOf property) else none
      | _, _ => none
    else none

def isHookName (name : String) : Bool :=
  match name.toList with
  | 'u' :: 's' :: 'e' :: c :: _ => ('A' ≤ c && c ≤ 'Z') || ('0' ≤ c && c ≤ '9')
  | _ => false

/-- The hook that a call calls, by its own name or as a member of `React`. -/
def hook? (call : Node) : Option String :=
  match call.child? "function" with
  | none => none
  | some fn =>
    if fn.kind == "identifier" then (some (src.textOf fn)).filter isHookName
    else if fn.kind == "member_expression" && src.childText "object" fn == "React" then
      (some (src.childText "property" fn)).filter isHookName
    else none

end Source

end Retype
