import Retype.Component.Classification
import Retype.Component.LegacyType
import Retype.Component.Literal
import Retype.Text.Blank

/-!
# Component props

The props of a component come from several places: runtime prop types and an
interface declare them, the first parameter or the class body shows which are
used, and default values make them optional. Merging keeps one entry for each
name, in the order of first occurrence.
-/

set_option autoImplicit false

namespace Retype

/-- Where a prop was found first. -/
inductive Origin where
  | legacy
  | interface
  | destructure
  | byDefault
  | member
  | whole
  deriving DecidableEq, Repr, Inhabited

def Origin.text : Origin → String
  | legacy => "legacy"
  | interface => "interface"
  | destructure => "destructure"
  | byDefault => "default"
  | member => "member"
  | whole => "whole"

structure Property where
  name : String
  isOptional : Bool := false
  inferred : Option String := none
  defaultText : Option String := none
  defaultShape : Option LiteralShape := none
  origin : Origin := .destructure
  legacy : Option LegacyType := none
  declared : Option String := none
  isRest : Bool := false
  deriving Repr, Inhabited

namespace Property

/-- An entry for the whole props object rather than for a member of it. -/
def isWhole (p : Property) : Bool := p.origin = .whole

variable (src : Source)

def withDefault (name : String) (value : Option Node) : Property :=
  { name := name
    isOptional := true
    defaultText := some (src.textOf? value)
    defaultShape := value.bind (LiteralShape.ofExpression src) }

/-! ## Objects assigned to members of components -/

def assignedObject? (key : String) (stmt : Node) : Option (String × Node) :=
  if stmt.kind == "expression_statement" then
    match stmt.namedChildren.head? with
    | none => none
    | some expr =>
      if expr.kind == "assignment_expression" then
        match expr.child? "left", expr.value? "right" with
        | some left, some right =>
          if left.kind == "member_expression" && src.childText "property" left == key &&
              right.kind == "object" then
            some (src.childText "object" left, right)
          else none
        | _, _ => none
      else none
  else none

def fieldKey (m : Node) : Option Node := m.child? "property" <|> m.child? "name"

def isStatic (m : Node) : Bool := m.hasToken "static"

/-- The object literals that a class gives a static field. -/
def staticObjects (key : String) (cls : Node) : List (String × Node) :=
  match cls.child? "body" with
  | none => []
  | some body => body.namedChildren.filterMap fun m =>
    if m.isField && isStatic m && src.textOf? (fieldKey m) == key then
      ((m.value? "value").filter fun v => v.kind == "object").map fun v =>
        (src.childText "name" cls, v)
    else none

/-- Object literals by owner: those assigned to `Owner.key` at the top of the
module, and static class fields of that name. -/
def ownedObjects (key : String) (root : Node) : List (String × Node) :=
  Keyed.ofList (root.namedChildren.filterMap (assignedObject? src key) ++
    (root.walk.filter (·.isClass)).flatMap (staticObjects src key))

/-- The object of one owner; a single object belongs to whoever asks. -/
def ownedObject? (owner : String) (objects : List (String × Node)) : Option Node :=
  match Keyed.get? owner objects, objects with
  | some n, _ => some n
  | none, [(_, n)] => some n
  | none, _ => none

def objectPairs (obj : Node) : List Node := obj.namedChildren.filter fun p => p.kind == "pair"

/-! ## Declared props -/

def ofLegacyPair (pair : Node) : Property :=
  let legacy := (pair.child? "value").bind (LegacyType.ofExpression src)
  { name := src.keyOf (pair.child? "key")
    isOptional := !(legacy.any (·.required))
    origin := .legacy
    legacy := legacy }

def legacyProps (root : Node) (owner : String) : List Property :=
  match ownedObject? owner (ownedObjects src "propTypes" root) with
  | none => []
  | some obj => (objectPairs obj).map (ofLegacyPair src)

def defaults (root : Node) (owner : String) : List (String × Option Node) :=
  match ownedObject? owner (ownedObjects src "defaultProps" root) with
  | none => []
  | some obj => Keyed.ofList ((objectPairs obj).map fun p =>
    (src.keyOf (p.child? "key"), p.child? "value"))

/-- The members of the first interface or type alias called `wanted`. -/
def interfaceBody? (wanted : String) (root : Node) : Option Node :=
  match root.walk.find? fun n =>
      (n.kind == "interface_declaration" || n.kind == "type_alias_declaration") &&
        src.childText "name" n == wanted with
  | none => none
  | some n =>
    if n.kind == "interface_declaration" then n.child? "body"
    else (n.child? "value").filter fun v => v.kind == "object_type"

def declaredText (type : Option Node) : Option String :=
  nonEmpty (Blank.trim (String.ofList ((src.textOf? type).toList.dropWhile (· = ':'))))

def interfaceProps (root : Node) (owner : String) : List Property :=
  match interfaceBody? src (owner ++ "Props") root with
  | none => []
  | some body => (body.namedChildren.filter fun m => m.kind == "property_signature").map fun m =>
    { name := src.keyOf (m.child? "name")
      isOptional := m.hasToken "?"
      origin := .interface
      declared := declaredText src (m.child? "type") }

/-! ## Observed props -/

def ofPatternEntry (entry : Node) : Option Property :=
  if entry.kind == "shorthand_property_identifier_pattern" then
    some { name := src.textOf entry }
  else if entry.kind == "object_assignment_pattern" then
    some (withDefault src (src.childText "left" entry) (entry.child? "right"))
  else if entry.kind == "pair_pattern" then
    let key := src.keyOf (entry.child? "key")
    match entry.child? "value" with
    | some v =>
      if v.kind == "assignment_pattern" then some (withDefault src key (v.child? "right"))
      else some { name := key }
    | none => some { name := key }
  else if entry.kind == "rest_pattern" then
    let inner := (nonEmpty (src.textOf? entry.namedChildren.head?)).getD "rest"
    some { name := "..." ++ inner, isOptional := true, isRest := true }
  else none

def ofPattern (pattern : Node) : List Property :=
  pattern.namedChildren.filterMap (ofPatternEntry src)

def firstParameter? (fn : Node) : Option Node :=
  match fn.child? "parameter" with
  | some p => some p
  | none => (fn.child? "parameters").bind fun ps => ps.parts.head?

def isTypedParameter (n : Node) : Bool :=
  n.kind == "required_parameter" || n.kind == "optional_parameter"

def binding? (param : Node) : Option Node :=
  match if isTypedParameter param then param.child? "pattern" else some param with
  | none => none
  | some p => if p.kind == "assignment_pattern" then p.child? "left" else some p

def isPropsObject (text : String) : Bool := text == "this.props" || text == "props"

/-- What one node of a class says about the props it uses. -/
def ofClassNode (n : Node) : List Property :=
  if n.kind == "member_expression" then
    if isPropsObject (src.childText "object" n) then
      let name := src.childText "property" n
      if name.isEmpty then [] else [{ name := name, origin := .member }]
    else []
  else if n.kind == "variable_declarator" then
    match n.child? "name" with
    | some pattern =>
      if pattern.kind == "object_pattern" && isPropsObject (src.textOf? (n.value? "value")) then
        (ofPattern src pattern).map fun p => { p with origin := .member }
      else []
    | none => []
  else []

def ofClass (cls : Node) : List Property :=
  ((cls.walk.flatMap (ofClassNode src)).foldl
    (fun found p => Keyed.putNew p.name p found) []).map (·.2)

/-! ## Merging -/

/-- A default value seen where the prop is used replaces the one known so far. -/
def observe (table : List (String × Property)) (p : Property) : List (String × Property) :=
  match Keyed.get? p.name table with
  | none => Keyed.put p.name p table
  | some known =>
    if p.defaultText.isSome then
      Keyed.put p.name
        { known with
          defaultText := p.defaultText
          defaultShape := p.defaultShape
          isOptional := true } table
    else table

/-- A declared default makes a prop optional and stands where no other is known. -/
def assume (table : List (String × Property)) (d : String × Option Node) :
    List (String × Property) :=
  let fresh := withDefault src d.1 d.2
  match Keyed.get? d.1 table with
  | none => Keyed.put d.1 { fresh with origin := .byDefault } table
  | some known =>
    if known.defaultText.isSome then Keyed.put d.1 { known with isOptional := true } table
    else
      Keyed.put d.1
        { known with
          isOptional := true
          defaultText := fresh.defaultText
          defaultShape := fresh.defaultShape } table

def merge (declared observed : List Property) (defaults : List (String × Option Node)) :
    List Property :=
  let start := Keyed.ofList (declared.map fun p => (p.name, p))
  let seen := (observed.filter fun p => !p.isWhole).foldl observe start
  observed.filter isWhole ++ (defaults.foldl (assume src) seen).map (·.2)

def ofFunction (fn : Node) : List Property :=
  match (firstParameter? fn).bind binding? with
  | none => []
  | some pattern =>
    if pattern.kind == "object_pattern" then ofPattern src pattern
    else if pattern.kind == "identifier" then [{ name := src.textOf pattern, origin := .whole }]
    else []

/-- The props of the component that a module was classified as. -/
def ofModule (root : Node) (c : Classification) : List Property :=
  match c.found with
  | none => []
  | some hit =>
    if c.kind = .functionComponent ∨ c.kind = .classComponent then
      let owner := (c.declared.bind nonEmpty).getD c.name
      let observed := if c.kind = .functionComponent then ofFunction src hit.node else ofClass src hit.node
      merge src (legacyProps src root owner ++ interfaceProps src root owner) observed
        (defaults src root owner)
    else []

end Property

end Retype
