import Retype.Component.Hooks

/-!
# Rendering patterns

Seven independent tests over a tree, each for one pattern of rendering or
behaviour. A tree has the patterns whose tests hold.
-/

set_option autoImplicit false

namespace Retype

inductive Pattern where
  | conditionalRendering
  | listRendering
  | dataFetching
  | formHandling
  | controlledInput
  | composition
  | memoization
  deriving DecidableEq, Repr, Inhabited

namespace Pattern

def text : Pattern → String
  | conditionalRendering => "ConditionalRendering"
  | listRendering => "ListRendering"
  | dataFetching => "DataFetching"
  | formHandling => "FormHandling"
  | controlledInput => "ControlledInput"
  | composition => "Composition"
  | memoization => "Memoization"

def all : List Pattern :=
  [conditionalRendering, listRendering, dataFetching, formHandling, controlledInput,
   composition, memoization]

variable (src : Source)

/-- Whether markup encloses a node before any block, class body or the module does. -/
def insideMarkup : List Node → Bool
  | [] => false
  | p :: rest =>
    if p.isElement || p.kind == "jsx_expression" then true
    else if p.isBlock || p.kind == "class_body" || p.kind == "program" then false
    else insideMarkup rest

def hasConditional (root : Node) : Bool :=
  (root.visits []).any fun v =>
    (v.node.kind == "ternary_expression" ||
      (v.node.kind == "binary_expression" && src.childText "operator" v.node == "&&")) &&
    insideMarkup v.ancestors

def hasList (root : Node) : Bool :=
  (root.visits []).any fun v =>
    v.node.isCall && insideMarkup v.ancestors &&
      (v.node.child? "function").any fun fn =>
        fn.kind == "member_expression" && src.childText "property" fn == "map"

def isHttpClient (name : String) : Bool :=
  ["axios", "http", "api", "client", "request", "superagent", "ky"].contains name

def isHttpMethod (name : String) : Bool :=
  ["get", "post", "put", "patch", "delete", "request", "head"].contains name

def isFetch (n : Node) : Bool :=
  n.kind == "await_expression" ||
    (n.isCall && (n.child? "function").any fun fn =>
      (fn.kind == "identifier" && (src.textOf fn == "fetch" || isHttpClient (src.textOf fn))) ||
      (fn.kind == "member_expression" &&
        (src.childText "property" fn == "then" ||
          (isHttpClient (src.childText "object" fn) && isHttpMethod (src.childText "property" fn)))))

def fetches (n : Node) : Bool := n.walk.any (isFetch src)

/-- The function that an effect runs, or the body of a life-cycle method. -/
def effectBody? (n : Node) : Option Node :=
  if n.isCall && (src.hook? n).any Hooks.isEffectHook then
    ((n.child? "arguments").bind fun args => args.namedChildren.head?).map Node.unwrap
  else if n.kind == "method_definition" &&
      ["componentDidMount", "componentDidUpdate"].contains (src.childText "name" n) then
    n.child? "body"
  else none

def hasFetching (root : Node) : Bool :=
  root.walk.any fun n => (effectBody? src n).any (fetches src)

def tagAttributes (root : Node) : List (String × List String) :=
  (root.walk.filter Node.isTag).map fun tag =>
    (src.childText "name" tag,
      (tag.namedChildren.filter fun a => a.kind == "jsx_attribute").filterMap fun a =>
        a.namedChildren.head?.map src.textOf)

def isFormElement (name : String) : Bool :=
  ["form", "input", "select", "textarea"].contains name

def hasForm (root : Node) : Bool :=
  (tagAttributes src root).any fun (name, attrs) =>
    isFormElement name && (attrs.contains "onSubmit" || attrs.contains "onChange")

def hasControlledInput (root : Node) : Bool :=
  (tagAttributes src root).any fun (_, attrs) =>
    attrs.contains "onChange" && (attrs.contains "value" || attrs.contains "checked")

def hasComposition (root : Node) : Bool :=
  root.walk.any fun n => n.kind == "jsx_expression" && match n.namedChildren with
    | [] => false
    | inner :: _ =>
      ["children", "props.children", "this.props.children"].contains (src.textOf inner.unwrap)

def hasMemo (root : Node) : Bool :=
  root.walk.any fun n => n.isCall && src.callee? n == some "memo"

def holds (root : Node) : Pattern → Bool
  | conditionalRendering => hasConditional src root
  | listRendering => hasList src root
  | dataFetching => hasFetching src root
  | formHandling => hasForm src root
  | controlledInput => hasControlledInput src root
  | composition => hasComposition src root
  | memoization => hasMemo src root

def ofRoot (root : Node) : List Pattern := all.filter (holds src root)

end Pattern

end Retype
