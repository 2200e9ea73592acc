import Retype.Component.Synthesis
import Retype.Edit

/-!
# Edits that give a module its types

Each function here reads one thing off a tree and gives the edits for it: the
specifiers of imports, the parameter and the result of a function component, the
base of a class component, and state calls. What is already typed gets no edit.
-/

set_option autoImplicit false

namespace Retype

namespace Retyping

variable (src : Source)

/-! ## Questions about a module -/

def importStatements (root : Node) : List Node :=
  root.namedChildren.filter fun c => c.kind == "import_statement"

def importedNames (root : Node) : List String :=
  (importStatements root).flatMap (Import.importedNames src)

def declarationOf (stmt : Node) : Option Node :=
  if stmt.kind == "export_statement" then stmt.child? "declaration" else some stmt

def declaresType (root : Node) (name : String) : Bool :=
  root.namedChildren.any fun stmt => (declarationOf stmt).any fun d =>
    (d.kind == "interface_declaration" || d.kind == "type_alias_declaration") &&
      src.childText "name" d == name

structure Spot where
  place : Nat
  before : String
  after : String
  deriving DecidableEq, Repr, Inhabited

def Spot.line (s : Spot) (text : String) : Edit :=
  Edit.insertion s.place (s.before ++ text ++ s.after)

/-- Where a new import goes: after the last import, else after the directive
that opens the module, else at the very beginning. -/
def importSpot (root : Node) : Spot :=
  match (importStatements root).getLast? with
  | some last => ⟨last.stop, "\n", ""⟩
  | none =>
    match root.namedChildren.find? fun c => !(c.isComment || c.kind == "hash_bang_line") with
    | none => ⟨0, "", "\n"⟩
    | some first =>
      if first.kind == "expression_statement" &&
          (first.namedChildren.head?.bind src.stringOf?).isSome then
        ⟨first.stop, "\n", ""⟩
      else ⟨0, "", "\n"⟩

/-- The start of the comments that stand directly above a statement. -/
def attachedStart (below : Node) : List Node → Nat
  | [] => below.start
  | prev :: rest =>
    if prev.isComment && src.row below.start ≤ src.row prev.stop + 1 then attachedStart prev rest
    else below.start

mutual

/-- Whether a return of `null` stands in a node, nested functions and classes aside. -/
def holdsNullReturn : Node → Bool
  | ⟨kind, named, start, stop, field, children⟩ =>
    let n : Node := ⟨kind, named, start, stop, field, children⟩
    if n.isFunction || kind == "class_declaration" || kind == "class" then false
    else (kind == "return_statement" && n.parts.head?.any fun v => v.unwrap.kind == "null") ||
      holdsNullReturnAny children

def holdsNullReturnAny : List Node → Bool
  | [] => false
  | c :: rest => (c.named && holdsNullReturn c) || holdsNullReturnAny rest

end

def returnsNull (fn : Node) : Bool :=
  match fn.child? "body" with
  | none => false
  | some body =>
    if body.isBlock then holdsNullReturnAny body.children else body.unwrap.kind == "null"

/-! ## The edits -/

def specifierNodes (root : Node) : List Node :=
  (root.namedChildren.filter fun s =>
    s.kind == "import_statement" || s.kind == "export_statement").filterMap (Node.child? "source")

/-- An internal specifier that reads differently where the target is written. -/
def specifierEdit? (table : AliasTable) (importer writer : String) (n : Node) : Option Edit :=
  match src.stringOf? n with
  | none => none
  | some spec =>
    let fresh := table.normalize spec importer writer
    if table.isInternal spec && fresh != spec then
      let quote := String.ofList ((src.textOf n).toList.take 1)
      some ⟨n.start, n.stop, quote ++ fresh ++ quote⟩
    else none

def specifierEdits (table : AliasTable) (importer writer : String) (root : Node) : List Edit :=
  (specifierNodes root).filterMap (specifierEdit? src table importer writer)

/-- The result type of a function that has none; an asynchronous one gets none. -/
def resultType? (fn : Node) : Option String :=
  if (fn.child? "return_type").isSome || fn.hasToken "async" then none
  else some (if returnsNull fn then "JSX.Element | null" else "JSX.Element")

def noteOf : Option String → String
  | none => ""
  | some type => ": " ++ type

/-- The part of a parameter that takes a type note, unless it has one. -/
def notable? (param : Node) : Option Node :=
  let target :=
    if Property.isTypedParameter param then
      if (param.child? "type").isSome then none else param.child? "pattern"
    else if param.kind == "assignment_pattern" then param.child? "left"
    else some param
  target.filter fun t => ["identifier", "object_pattern", "array_pattern"].contains t.kind

/-- Types the first parameter and the result of a function component. A parameter
without parentheses gets them, because it cannot take a note otherwise. -/
def signatureEdits (fn : Node) (interfaceName : Option String) : List Edit :=
  let result := resultType? fn
  match fn.child? "parameter" with
  | some single =>
    if interfaceName.isNone && result.isNone then []
    else [⟨single.start, single.stop,
      "(" ++ src.textOf single ++ noteOf interfaceName ++ ")" ++ noteOf result⟩]
  | none =>
    let param := match interfaceName with
      | none => none
      | some _ => (Property.firstParameter? fn).bind notable?
    (param.map fun t => Edit.insertion t.stop (noteOf interfaceName)).toList ++
      match result, fn.child? "parameters" with
      | some _, some ps => [Edit.insertion ps.stop (noteOf result)]
      | _, _ => []

def heritageTarget (sub : Node) : Option (Option Node × Bool) :=
  if sub.kind == "implements_clause" then none
  else if sub.kind == "extends_clause" then
    some (sub.child? "value", (sub.child? "type_arguments").isSome)
  else some (some sub, false)

/-- Gives the base of a class component its type argument. -/
def baseEdit? (cls : Node) (interfaceName : String) : Option Edit :=
  match ((cls.children.filter fun c => c.kind == "class_heritage").flatMap
      Node.namedChildren).findSome? heritageTarget with
  | some (some value, false) =>
    if Affix.occurs "<" (src.textOf value) then none
    else some (Edit.insertion value.stop ("<" ++ interfaceName ++ ">"))
  | _ => none

/-- The type argument of a state call that has none. -/
def stateEdit? (v : Node.Visit) : Option Edit :=
  if v.node.isCall && src.hook? v.node == some "useState" &&
      (v.node.child? "type_arguments").isNone then
    (v.node.child? "function").map fun callee =>
      let slot := Hooks.stateSlot src .useState (Hooks.binding? v) v.node.arguments
      Edit.insertion callee.stop ("<" ++ slot.argument ++ ">")
  else none

def stateEdits (root : Node) : List Edit := (root.visits []).filterMap (stateEdit? src)

end Retyping

end Retype
