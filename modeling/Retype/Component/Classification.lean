import Retype.Module.Declaration
import Retype.Module.Markup
import Retype.Text.Alphabet
import Retype.Text.Affix

/-!
# Classification of modules

A module is classified by the first of five searches that finds something: a
class component, a function that returns markup, a higher-order component, a
custom hook, a context. Among several class or function components the default
export goes first, then named exports, then the first in the file.
-/

set_option autoImplicit false

namespace Retype

inductive Kind where
  | classComponent
  | functionComponent
  | higherOrderComponent
  | customHook
  | contextProvider
  | unknown
  deriving DecidableEq, Repr, Inhabited

inductive ExportType where
  | byDefault
  | named
  | none
  deriving DecidableEq, Repr, Inhabited

/-- What a search found: a name, if it has one, the node, and the statement at
the top of the module that holds it. -/
structure Match where
  name : Option String
  node : Node
  statement : Statement

structure Classification where
  kind : Kind
  name : String
  found : Option Match := none
  exportType : ExportType := .none
  boundary : Option String := none

namespace Kind

def text : Kind → String
  | classComponent => "ClassComponent"
  | functionComponent => "FunctionComponent"
  | higherOrderComponent => "HigherOrderComponent"
  | customHook => "CustomHook"
  | contextProvider => "ContextProvider"
  | unknown => "Unknown"

def all : List Kind :=
  [classComponent, functionComponent, higherOrderComponent, customHook, contextProvider, unknown]

end Kind

def ExportType.text : ExportType → String
  | .byDefault => "default"
  | .named => "named"
  | .none => "none"

/-- The name that a path gives a module: the file name up to its first dot, or
the folder's name for an index file. -/
def moduleName (path : String) : String :=
  let base := Path.base path
  let stem := (nonEmpty (String.ofList (base.toList.takeWhile (· ≠ '.')))).getD base
  if stem == "index" then (nonEmpty (Path.base (Path.folder path))).getD stem else stem

namespace Search

variable (src : Source)

/-- The function behind a declared value, through at most `levels` wrapping calls. -/
def functionOf : Nat → Node → Option Node
  | levels, n =>
    let n := n.unwrap
    if n.isFunction then some n
    else match levels with
      | 0 => none
      | levels + 1 => if n.isCall then n.arguments.findSome? (functionOf levels) else none

def returnsDefinition (fn : Node) : Bool :=
  let defines (n : Node) := n.unwrap.isFunction || n.unwrap.isClass
  match fn.child? "body" with
  | none => false
  | some body =>
    if body.isBlock then
      body.namedChildren.any fun stmt => stmt.kind == "return_statement" &&
        match stmt.namedChildren with
        | [] => false
        | value :: _ => defines value
    else defines body

def isComponentBase (name : String) : Bool :=
  ["Component", "PureComponent", "React.Component", "React.PureComponent"].contains name

def heritageBase? (heritage : Node) : Option String :=
  heritage.namedChildren.findSome? fun sub =>
    if sub.kind == "extends_clause" then
      some (src.textOf? (sub.child? "value" <|> sub.namedChildren.head?))
    else if sub.kind == "implements_clause" then none
    else some (src.textOf sub)

def extendsComponent (cls : Node) : Bool :=
  match (cls.children.filter fun c => c.kind == "class_heritage").findSome? (heritageBase? src) with
  | some base => isComponentBase base
  | none => false

def beginsCapital (name : String) : Bool :=
  match name.toList with
  | [] => false
  | c :: _ => Alphabet.isCapital c

/-- Whether a call, or a call it is made on, takes a definition or a component. -/
def wrapsComponent : Nat → Node → Bool
  | levels, call =>
    if src.callee? call == some "createContext" then false
    else if call.arguments.any fun a =>
        let a := a.unwrap
        a.isFunction || a.isClass || (a.kind == "identifier" && beginsCapital (src.textOf a)) then
      true
    else match levels, call.child? "function" with
      | levels + 1, some fn => if fn.isCall then wrapsComponent levels fn else false
      | _, _ => false

/-- Default exports rank first, named exports second, the rest third. -/
def rank (e : Exports) (name : Option String) (isDefault exported : Bool) : Nat :=
  if isDefault || (name.isSome && name == e.byDefault) then 0
  else if exported || name.any e.named.contains then 1
  else 2

structure ClassFound where
  hit : Match
  isDefault : Bool
  exported : Bool

def classFound (s : Statement) (v : Node.Visit) : Option ClassFound :=
  if v.node.isClass && extendsComponent src v.node then
    let bound := match v.parent? with
      | some p => if p.kind == "variable_declarator" then src.nameOf p else none
      | none => none
    let (isDefault, exported) := match v.parent? with
      | some p => if p.kind == "export_statement" then (p.hasToken "default", true) else (false, false)
      | none => (false, false)
    some ⟨⟨src.nameOf v.node <|> bound, v.node, s⟩, isDefault, exported⟩
  else none

/-- All nodes under the top of a module, each with its statement. -/
def visits (root : Node) : List (Statement × Node.Visit) :=
  root.statements.flatMap fun s => (s.node.visits [root]).map fun v => (s, v)

def classComponent (root : Node) : Option Match :=
  let found := (visits root).filterMap fun (s, v) => classFound src s v
  let e := Exports.ofRoot src root
  (Order.leastBy (fun f => rank e f.hit.name f.isDefault f.exported) found).map (·.hit)

def functionComponent (root : Node) : Option Match :=
  let found := (Declaration.all src root).filterMap fun d =>
    ((functionOf 2 d.node).filter src.returnsMarkup).map fun fn => (d, fn)
  let e := Exports.ofRoot src root
  (Order.leastBy (fun (d, _) => rank e d.name d.isDefault d.exported) found).map fun (d, fn) =>
    ⟨d.name, fn, d.statement⟩

def higherOrderMatch (e : Exports) (tags : List String) (d : Declaration) : Option Match :=
  if d.node.isCall && wrapsComponent src 2 d.node then
    match d.name with
    | none => if d.isDefault then some ⟨none, d.node, d.statement⟩ else none
    | some name =>
      if beginsCapital name || some name == e.byDefault || tags.contains name then
        some ⟨some name, d.node, d.statement⟩
      else none
  else match d.name with
    | none => none
    | some name =>
      if d.node.isFunction && Affix.begins "with" name && returnsDefinition d.node then
        some ⟨some name, d.node, d.statement⟩
      else none

def higherOrderComponent (root : Node) : Option Match :=
  (Declaration.all src root).findSome?
    (higherOrderMatch src (Exports.ofRoot src root) (src.tagNames root))

def customHook (root : Node) : Option Match :=
  let e := Exports.ofRoot src root
  (Declaration.all src root).findSome? fun d =>
    match d.name with
    | none => none
    | some name =>
      if Source.isHookName name && (d.exported || e.named.contains name || some name == e.byDefault)
          && d.node.isFunction && !src.returnsMarkup d.node then
        some ⟨some name, d.node, d.statement⟩
      else none

def contextName (v : Node.Visit) : Option String :=
  match v.ancestors.find? fun a =>
      !(a.kind == "parenthesized_expression" || a.kind == "as_expression") with
  | some p => if p.kind == "variable_declarator" then src.nameOf p else none
  | none => none

def contextProvider (root : Node) : Option Match :=
  (visits root).findSome? fun (s, v) =>
    if v.node.isCall && src.callee? v.node == some "createContext" then
      some ⟨contextName src v, v.node, s⟩
    else none

def all : List (Kind × (Source → Node → Option Match)) :=
  [(.classComponent, classComponent), (.functionComponent, functionComponent),
   (.higherOrderComponent, higherOrderComponent), (.customHook, customHook),
   (.contextProvider, contextProvider)]

end Search

namespace Classification

def unknown (path : String) : Classification := { kind := .unknown, name := moduleName path }

def declared (c : Classification) : Option String := c.found.bind (·.name)

def exported (c : Classification) : Bool := c.exportType ≠ .none

/-- How the name of a module's component leaves the module. -/
def exportTypeOf (src : Source) (root : Node) (e : Exports) (declared : Option String)
    (name : String) : ExportType :=
  if (e.byDefault.bind nonEmpty) == some name then .byDefault
  else if e.named.contains name then .named
  else if declared == some name &&
      (Declaration.all src root).any (fun d => d.name == some name && d.exported) then .named
  else .none

def ofRoot (src : Source) (path : String) (root : Node) : Classification :=
  let hit := Search.all.findSome? fun (kind, search) => (search src root).map fun m => (kind, m)
  let found := hit.map (·.2)
  let declared := found.bind (·.name)
  let e := Exports.ofRoot src root
  let name := ((e.byDefault.bind nonEmpty) <|> declared).getD (moduleName path)
  { kind := (hit.map (·.1)).getD .unknown
    name := name
    found := found
    exportType := exportTypeOf src root e declared name
    boundary := boundary? src root }

def ofUnit (u : SourceUnit) : Classification :=
  match u.tree with
  | none => unknown u.path
  | some t => if t.hasError then unknown u.path else ofRoot u.source u.path t.root

end Classification

end Retype
