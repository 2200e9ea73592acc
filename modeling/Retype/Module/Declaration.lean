import Retype.Module.Vocabulary
import Retype.Order

/-!
# Declarations and exports of a module

The statements at the top of a module, the values they declare, the names they
export, and the directive that opens the module. Names are the local names of
bindings.
-/

set_option autoImplicit false

namespace Retype

structure Statement where
  node : Node
  above : List Node
  deriving Inhabited

namespace Statement

def collect (above : List Node) : List Node → List Statement
  | [] => []
  | c :: rest =>
    if c.named then ⟨c, above⟩ :: collect (c :: above) rest else collect (c :: above) rest

def isExport (s : Statement) : Bool := s.node.kind == "export_statement"

end Statement

def Node.statements (root : Node) : List Statement := Statement.collect [] root.children

structure Declaration where
  name : Option String
  node : Node
  statement : Statement
  exported : Bool
  isDefault : Bool

namespace Declaration

/-- The values that the declarators of a variable statement bind to plain names. -/
def ofVariables (src : Source) (s : Statement) (exported isDefault : Bool) (list : Node) :
    List Declaration :=
  list.namedChildren.filterMap fun d =>
    if d.kind == "variable_declarator" then
      match d.child? "name", d.child? "value" with
      | some name, some value =>
        if name.kind == "identifier" then
          some ⟨some (src.textOf name), value.unwrap, s, exported, isDefault⟩
        else none
      | _, _ => none
    else none

def ofInner (src : Source) (s : Statement) (exported isDefault : Bool) (inner : Node) :
    List Declaration :=
  if inner.isFunction || inner.isClass then
    [⟨src.nameOf inner, inner, s, exported, isDefault⟩]
  else if inner.isVariables then ofVariables src s exported isDefault inner
  else []

def ofStatement (src : Source) (s : Statement) : List Declaration :=
  if s.isExport then
    let isDefault := s.node.hasToken "default"
    match s.node.child? "declaration", s.node.value? "value" with
    | some inner, _ => ofInner src s true isDefault inner
    | none, some value =>
      let name := if value.kind == "identifier" then some (src.textOf value) else src.nameOf value
      [⟨name, value, s, true, isDefault⟩]
    | none, none => []
  else ofInner src s false false s.node

def all (src : Source) (root : Node) : List Declaration :=
  root.statements.flatMap (ofStatement src)

end Declaration

structure Exports where
  byDefault : Option String
  named : List String
  deriving DecidableEq, Repr

namespace Exports

def declaredNames (src : Source) (decl : Node) : List String :=
  let names :=
    if decl.isVariables then
      (decl.namedChildren.filter fun d => d.kind == "variable_declarator").map (src.childText "name")
    else [src.childText "name" decl]
  names.filter fun n => !n.isEmpty

/-- Adds what a statement declares or exports by value. -/
def addValue (src : Source) (stmt : Node) (e : Exports) : Exports :=
  let isDefault := stmt.hasToken "default"
  match stmt.child? "declaration", stmt.value? "value" with
  | some decl, _ =>
    let names := declaredNames src decl
    if isDefault then { e with byDefault := names.head? <|> e.byDefault }
    else { e with named := e.named ++ names }
  | none, some value =>
    if isDefault then
      if value.kind == "identifier" then { e with byDefault := some (src.textOf value) }
      else if value.isFunction || value.isClass then { e with byDefault := src.nameOf value }
      else e
    else e
  | none, none => e

def addSpecifier (src : Source) (e : Exports) (spec : Node) : Exports :=
  let inner := src.childText "name" spec
  if src.childText "alias" spec == "default" then { e with byDefault := some inner }
  else if inner.isEmpty then e
  else { e with named := e.named ++ [inner] }

def specifiers (stmt : Node) : List Node :=
  (stmt.namedChildren.filter fun c => c.kind == "export_clause").flatMap fun c =>
    c.namedChildren.filter fun s => s.kind == "export_specifier"

/-- Statements that export from another module name nothing of this one. -/
def add (src : Source) (e : Exports) (s : Statement) : Exports :=
  if s.isExport && (s.node.child? "source").isNone then
    (specifiers s.node).foldl (addSpecifier src) (addValue src s.node e)
  else e

def ofRoot (src : Source) (root : Node) : Exports :=
  let e := root.statements.foldl (add src) ⟨none, []⟩
  { e with named := Order.distinct e.named }

end Exports

/-- The directive that opens a module. -/
def boundary? (src : Source) (root : Node) : Option String :=
  match root.namedChildren.find? fun c => !(c.isComment || c.kind == "hash_bang_line") with
  | none => none
  | some first =>
    if first.kind == "expression_statement" then
      (first.namedChildren.head?.bind src.stringOf?).filter fun s =>
        s == "use client" || s == "use server"
    else none

end Retype
