import Retype.Component.Analysis
import Retype.Retyping.Edits
import Retype.Text.Quoted

/-!
# Retyping a unit

The edits of one unit put together and applied: imports as they read at the
target, the interface in the module or in a file beside the target, the
component's signature, and the types of state. Only a unit whose tree has no
errors can be retyped, and only with texts that have octets. Whatever is already
there is not added again.
-/

set_option autoImplicit false

namespace Retype

def companionPath (target : String) : String := Path.stem target ++ ".types.ts"

structure Companion where
  path : String
  text : String
  deriving DecidableEq, Repr, Inhabited

/-- What is written for a unit. -/
structure Retyped where
  code : String
  target : String
  companion : Option Companion
  edits : Nat
  warnings : List String
  deriving DecidableEq, Repr, Inhabited

inductive RetypeError where
  | brokenSource (path : String)
  | refused (r : Edit.Refusal)
  deriving DecidableEq, Repr

def RetypeError.message : RetypeError → String
  | brokenSource path => path ++ ": source has syntax errors"
  | refused (.overlap o) => o.message
  | refused (.half run) => Quoted.refusal run

namespace Retyping

variable (src : Source)

def reactImport : String := "import type React from 'react';"

def missingInterface? (root : Node) (s : Synthesis) : Option String :=
  s.interfaceName.filter fun name =>
    !declaresType src root name && !(importedNames src root).contains name

def interfacePlace (root : Node) (c : Classification) : Nat :=
  match c.found with
  | some hit => attachedStart src hit.statement.node hit.statement.above
  | none => (importSpot src root).place

def companionImport (name target : String) : String :=
  "import type \x7b " ++ name ++ " \x7d from './" ++
    Path.base (Path.stem (companionPath target)) ++ "';"

/-- The edits that bring the interface in. -/
def interfaceEdits (root : Node) (c : Classification) (s : Synthesis) (target : String) :
    List Edit :=
  match missingInterface? src root s with
  | none => []
  | some name =>
    match s.placement with
    | .external => [(importSpot src root).line (companionImport name target)]
    | .inline =>
      (if s.needsReact && !(importedNames src root).contains "React" then
        [(importSpot src root).line reactImport] else []) ++
      [Edit.insertion (interfacePlace src root c) (Synthesis.declaration name s.fields ++ "\n")]

/-- The edits to the component itself. -/
def componentEdits (kind : Kind) (c : Classification) (interfaceName : Option String) : List Edit :=
  match c.found with
  | none => []
  | some hit =>
    if kind = .functionComponent && hit.node.isFunction then signatureEdits src hit.node interfaceName
    else if kind = .classComponent then
      match interfaceName with
      | some name => (baseEdit? src hit.node name).toList
      | none => []
    else []

def edits (table : AliasTable) (path target : String) (root : Node) (kind : Kind)
    (c : Classification) (s : Synthesis) : List Edit :=
  specifierEdits src table path target root ++ interfaceEdits src root c s target ++
    componentEdits src kind c s.interfaceName ++ stateEdits src root

def companion? (root : Node) (s : Synthesis) (target : String) : Option Companion :=
  if s.placement = .external && (missingInterface? src root s).isSome then
    s.companionText.map fun text => ⟨companionPath target, text⟩
  else none

end Retyping

/-- Retypes a unit for a target, with the synthesis of its profile. -/
def SourceUnit.retype (u : SourceUnit) (table : AliasTable) (kind : Kind) (s : Synthesis)
    (target : String) : Except RetypeError Retyped :=
  match u.tree with
  | none => .error (.brokenSource u.path)
  | some t =>
    if t.hasError then .error (.brokenSource u.path)
    else
      let c := Classification.ofRoot u.source u.path t.root
      let es := Retyping.edits u.source table u.path target t.root kind c s
      match Edit.applyAll u.source.octets.toList es with
      | .error r => .error (.refused r)
      | .ok out => .ok
        { code := Utf8.decode out
          target := target
          companion := Retyping.companion? u.source t.root s target
          edits := es.length
          warnings := s.unknowns }

end Retype
